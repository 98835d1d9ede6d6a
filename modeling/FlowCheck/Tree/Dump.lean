import FlowCheck.Tree.Node

/-!
# Trees as indented text

One line a node or property, two spaces a level. Statements that `dead` marks carry the remark
`(unreachable)`.
-/
namespace FlowCheck.Dump

/-- Lines one level deeper. -/
def nest (lines : List String) : List String := lines.map ("  " ++ ·)

/-- A labelled part, one level deeper than its label. -/
def field (label : String) (lines : List String) : List String := (label ++ ":") :: nest lines

/-- A statement's first line. -/
def header (dead : Nat → Bool) (m : Mark) (kind detail : String) : String :=
  kind ++ " " ++ m.pos.render ++ detail ++ if dead m.id then " (unreachable)" else ""

def ident (name : Ident) : List String :=
  ["Name " ++ name.mark.pos.render ++ " " ++ Quoted.text name.text]

mutual

def expr : Expr → List String
  | .ident name => ident name
  | .literal m kind text =>
    ["BasicLit " ++ m.pos.render ++ " " ++ kind.text ++ " " ++ Quoted.text text]
  | .unary m op x => ("UnaryOp " ++ m.pos.render ++ " " ++ op.text) :: nest (expr x)
  | .binary m op x y =>
    ("BinaryOp " ++ m.pos.render ++ " " ++ op.text)
      :: nest (field "X" (expr x) ++ field "Y" (expr y))
  | .call m callee args =>
    ("CallExpr " ++ m.pos.render)
      :: nest (field "Fun" (expr callee) ++ if args.isEmpty then [] else field "Args" (exprs args))
  | .index m x i =>
    ("IndexExpr " ++ m.pos.render) :: nest (field "X" (expr x) ++ field "Index" (expr i))
  | .select m x sel =>
    ("SelectorExpr " ++ m.pos.render) :: nest (field "X" (expr x) ++ ["Sel: " ++ sel.text])
  | .paren m x => ("ParenExpr " ++ m.pos.render) :: nest (expr x)
  | .sliceType m elem =>
    ["SliceType " ++ m.pos.render ++ " " ++ (Expr.sliceType m elem).render]

def exprs : List Expr → List String
  | [] => []
  | x :: rest => expr x ++ exprs rest

end

def optional (label : String) (x : Option Expr) : List String :=
  x.elim [] fun x => field label (expr x)

def simple (dead : Nat → Bool) : Simple → List String
  | .expr m x => header dead m "ExprStmt" "" :: nest (expr x)
  | .assign m op target value =>
    header dead m "AssignStmt" (" " ++ op.text)
      :: nest (field "LHS" (expr target) ++ field "RHS" (expr value))

def varDecl (d : VarDecl) : List String :=
  ("VarDecl " ++ d.mark.pos.render)
    :: nest (("Name: " ++ d.name.text) :: d.type.elim [] (fun t => ["Type: " ++ t.render])
      ++ optional "Value" d.value)

/-- The labels of a switch section. -/
def caseLabel (values : List Expr) (isDefault : Bool) : String :=
  if !isDefault then "case " ++ Expr.renderList values
  else if values.isEmpty then "default"
  else "case " ++ Expr.renderList values ++ ", default"

mutual

def stmt (dead : Nat → Bool) : Stmt → List String
  | .empty m => [header dead m "EmptyStmt" ""]
  | .simple s => simple dead s
  | .var m decl => header dead m "DeclStmt" "" :: nest (varDecl decl)
  | .block b => block dead b
  | .cond m test yes no =>
    header dead m "IfStmt" ""
      :: nest (field "Cond" (expr test) ++ field "Then" (block dead yes) ++ elsePart dead no)
  | .loop m init test post body =>
    header dead m "ForStmt" ""
      :: nest (init.elim [] (fun s => field "Init" (simple dead s)) ++ optional "Cond" test
        ++ post.elim [] (fun s => field "Post" (simple dead s)) ++ field "Body" (block dead body))
  | .foreach m v operand body =>
    header dead m "ForeachStmt" (" " ++ v.text)
      :: nest (field "X" (expr operand) ++ field "Body" (block dead body))
  | .switch m tag sections _ =>
    header dead m "SwitchStmt" "" :: nest (field "Tag" (expr tag) ++ caseClauses dead sections)
  | .jump m kind => [header dead m "BranchStmt" (" " ++ kind.text)]
  | .ret m result => header dead m "ReturnStmt" "" :: nest (result.elim [] expr)
  | .raise m x => header dead m "ThrowStmt" "" :: nest (expr x)
  | .attempt m body handlers cleanup =>
    header dead m "TryStmt" ""
      :: nest (field "Body" (block dead body) ++ catchClauses dead handlers
        ++ finallyPart dead cleanup)

def elsePart (dead : Nat → Bool) : Option Stmt → List String
  | none => []
  | some s => field "Else" (stmt dead s)

def finallyPart (dead : Nat → Bool) : Option Block → List String
  | none => []
  | some b => field "Finally" (block dead b)

def stmts (dead : Nat → Bool) : List Stmt → List String
  | [] => []
  | s :: rest => stmt dead s ++ stmts dead rest

def block (dead : Nat → Bool) : Block → List String
  | .mk m body _ => header dead m "BlockStmt" "" :: nest (stmts dead body)

def caseClause (dead : Nat → Bool) : CaseClause → List String
  | .mk m values isDefault body =>
    header dead m "CaseClause" (" " ++ caseLabel values isDefault) :: nest (stmts dead body)

def caseClauses (dead : Nat → Bool) : List CaseClause → List String
  | [] => []
  | c :: rest => caseClause dead c ++ caseClauses dead rest

def catchClause (dead : Nat → Bool) : CatchClause → List String
  | .mk m param body =>
    header dead m "CatchClause" (param.elim "" fun p => " " ++ p.1.text ++ " " ++ p.2.render)
      :: nest (block dead body)

def catchClauses (dead : Nat → Bool) : List CatchClause → List String
  | [] => []
  | c :: rest => catchClause dead c ++ catchClauses dead rest

end

def param (p : Param) : List String :=
  [(if p.out then "out " else "") ++ p.name.text ++ " " ++ p.type.render]

def func (dead : Nat → Bool) (d : FuncDecl) : List String :=
  ("FuncDecl " ++ d.mark.pos.render)
    :: nest (("Name: " ++ d.name.text)
      :: (if d.params.isEmpty then [] else field "Params" (d.params.flatMap param))
      ++ d.result.elim [] (fun t => ["Result: " ++ t.render])
      ++ (if d.throws.isEmpty then [] else ["Throws: " ++ Expr.renderList d.throws])
      ++ field "Body" (block dead d.body))

def errorDomain (d : ErrorDomainDecl) : List String :=
  ("ErrorDomainDecl " ++ d.mark.pos.render)
    :: nest ["Name: " ++ d.name.text, "Codes: " ++ ", ".intercalate (d.codes.map (·.text))]

def decl (dead : Nat → Bool) : Decl → List String
  | .errorDomain d => errorDomain d
  | .var d => varDecl d
  | .func d => func dead d

def file (dead : Nat → Bool) (f : File) : List String :=
  ("File " ++ f.mark.pos.render)
    :: nest (("Package: " ++ f.package.text) :: f.decls.flatMap (decl dead))

def node (dead : Nat → Bool) : Node → List String
  | .file f => file dead f
  | .errorDomain d => errorDomain d
  | .varDecl d => varDecl d
  | .func d => func dead d
  | .param p => param p
  | .expr x => expr x
  | .stmt s => stmt dead s
  | .caseClause c => caseClause dead c
  | .catchClause c => catchClause dead c

end FlowCheck.Dump

namespace FlowCheck

/-- The text of a tree, closed by a newline. -/
def Node.dump (dead : Nat → Bool) (n : Node) : String :=
  String.join ((Dump.node dead n).map (· ++ "\n"))

end FlowCheck
