import FlowCheck.Tree.Basic

/-!
# Numbering the nodes

`File.numbered` gives every node its place in the walk over the whole file, counted from zero.
The nodes below a node therefore have consecutive numbers, starting one above its own.
-/
namespace FlowCheck

/-- A computation that hands out node numbers in increasing order. -/
abbrev Numbering := StateM Nat

def Mark.numbered (m : Mark) : Numbering Mark := do
  let id ← getModify (· + 1)
  return { m with id }

def Ident.numbered (name : Ident) : Numbering Ident :=
  return { name with mark := ← name.mark.numbered }

mutual

def Expr.numbered : Expr → Numbering Expr
  | .ident name => return .ident (← name.numbered)
  | .literal m kind text => return .literal (← m.numbered) kind text
  | .unary m op x => return .unary (← m.numbered) op (← x.numbered)
  | .binary m op x y => return .binary (← m.numbered) op (← x.numbered) (← y.numbered)
  | .call m callee args =>
    return .call (← m.numbered) (← callee.numbered) (← Expr.numberedList args)
  | .index m x i => return .index (← m.numbered) (← x.numbered) (← i.numbered)
  | .select m x sel => return .select (← m.numbered) (← x.numbered) (← sel.numbered)
  | .paren m x => return .paren (← m.numbered) (← x.numbered)
  | .sliceType m elem => return .sliceType (← m.numbered) (← elem.numbered)

def Expr.numberedList : List Expr → Numbering (List Expr)
  | [] => return []
  | x :: rest => return (← x.numbered) :: (← Expr.numberedList rest)

end

def Expr.numberedOption : Option Expr → Numbering (Option Expr)
  | none => return none
  | some x => return some (← x.numbered)

def Simple.numbered : Simple → Numbering Simple
  | .expr m x => return .expr (← m.numbered) (← x.numbered)
  | .assign m op target value =>
    return .assign (← m.numbered) op (← target.numbered) (← value.numbered)

def Simple.numberedOption : Option Simple → Numbering (Option Simple)
  | none => return none
  | some s => return some (← s.numbered)

def VarDecl.numbered (d : VarDecl) : Numbering VarDecl :=
  return {
    mark := ← d.mark.numbered
    name := ← d.name.numbered
    type := ← Expr.numberedOption d.type
    value := ← Expr.numberedOption d.value }

mutual

def Stmt.numbered : Stmt → Numbering Stmt
  | .empty m => return .empty (← m.numbered)
  | .simple s => return .simple (← s.numbered)
  | .var m decl => return .var (← m.numbered) (← decl.numbered)
  | .block b => return .block (← b.numbered)
  | .cond m test yes no =>
    return .cond (← m.numbered) (← test.numbered) (← yes.numbered) (← Stmt.numberedOption no)
  | .loop m init test post body =>
    return .loop (← m.numbered) (← Simple.numberedOption init) (← Expr.numberedOption test)
      (← Simple.numberedOption post) (← body.numbered)
  | .foreach m v operand body =>
    return .foreach (← m.numbered) (← v.numbered) (← operand.numbered) (← body.numbered)
  | .switch m tag sections close =>
    return .switch (← m.numbered) (← tag.numbered) (← CaseClause.numberedList sections) close
  | .jump m kind => return .jump (← m.numbered) kind
  | .ret m result => return .ret (← m.numbered) (← Expr.numberedOption result)
  | .raise m x => return .raise (← m.numbered) (← x.numbered)
  | .attempt m body handlers cleanup =>
    return .attempt (← m.numbered) (← body.numbered) (← CatchClause.numberedList handlers)
      (← Block.numberedOption cleanup)

def Stmt.numberedOption : Option Stmt → Numbering (Option Stmt)
  | none => return none
  | some s => return some (← s.numbered)

def Stmt.numberedList : List Stmt → Numbering (List Stmt)
  | [] => return []
  | s :: rest => return (← s.numbered) :: (← Stmt.numberedList rest)

def Block.numbered : Block → Numbering Block
  | .mk m stmts close => return .mk (← m.numbered) (← Stmt.numberedList stmts) close

def Block.numberedOption : Option Block → Numbering (Option Block)
  | none => return none
  | some b => return some (← b.numbered)

def CaseClause.numbered : CaseClause → Numbering CaseClause
  | .mk m values isDefault body =>
    return .mk (← m.numbered) (← Expr.numberedList values) isDefault (← Stmt.numberedList body)

def CaseClause.numberedList : List CaseClause → Numbering (List CaseClause)
  | [] => return []
  | c :: rest => return (← c.numbered) :: (← CaseClause.numberedList rest)

def CatchClause.numbered : CatchClause → Numbering CatchClause
  | .mk m none body => return .mk (← m.numbered) none (← body.numbered)
  | .mk m (some (name, type)) body =>
    return .mk (← m.numbered) (some (← name.numbered, ← type.numbered)) (← body.numbered)

def CatchClause.numberedList : List CatchClause → Numbering (List CatchClause)
  | [] => return []
  | c :: rest => return (← c.numbered) :: (← CatchClause.numberedList rest)

end

def Param.numbered (p : Param) : Numbering Param :=
  return {
    p with
    mark := ← p.mark.numbered
    name := ← p.name.numbered
    type := ← p.type.numbered }

def FuncDecl.numbered (d : FuncDecl) : Numbering FuncDecl :=
  return {
    mark := ← d.mark.numbered
    name := ← d.name.numbered
    params := ← d.params.mapM Param.numbered
    result := ← Expr.numberedOption d.result
    throws := ← Expr.numberedList d.throws
    body := ← d.body.numbered }

def ErrorDomainDecl.numbered (d : ErrorDomainDecl) : Numbering ErrorDomainDecl :=
  return {
    mark := ← d.mark.numbered
    name := ← d.name.numbered
    codes := ← d.codes.mapM Ident.numbered }

def Decl.numbered : Decl → Numbering Decl
  | .errorDomain d => return .errorDomain (← d.numbered)
  | .var d => return .var (← d.numbered)
  | .func d => return .func (← d.numbered)

/-- The file with its nodes numbered from zero in walking order. -/
def File.numbered (f : File) : File :=
  let count : Numbering File :=
    return {
      mark := ← f.mark.numbered
      package := ← f.package.numbered
      decls := ← f.decls.mapM Decl.numbered }
  (count.run 0).1

end FlowCheck
