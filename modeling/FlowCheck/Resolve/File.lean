import FlowCheck.Resolve.Stmt

/-!
# Resolving files

Error domains are declared first, then functions with their signatures and package variables in
source order, and function bodies last, so that a body may refer to everything in its file.
-/
namespace FlowCheck

namespace Resolve

def errorDomainDecl (d : ErrorDomainDecl) : Resolver Unit := do
  let domain ← modifyGet fun s =>
    let (id, tree) := s.tree.addDomain d.name.mark.pos d.name.text
    (id, { s with tree })
  declare d.name domain
  d.codes.forM fun c => do
    let s ← get
    match s.tree.addCode domain c.mark.pos c.text with
    | (_, false, _) => report c.mark.pos (.redeclaredCode c.text d.name.text)
    | (code, true, tree) => set { s with tree, defs := (c.mark.id, code) :: s.defs }

/-- A package variable; what its value reads and raises is of no concern to any function. -/
def globalVar (d : VarDecl) : Resolver Unit := do
  if let some x := d.value then discard (expr x {})
  let v ← newVar d.name .local (← varType d.type d.value)
  declare d.name v

/-- A parameter that no scope holds yet, with its kind and type. -/
def param (p : Param) : Resolver (EntityId × VarKind × Typ) := do
  let kind := if p.out then VarKind.outParam else VarKind.param
  let type ← typ p.type
  return (← newVar p.name kind (some type), kind, type)

/-- A function and its signature. -/
def funcDecl (d : FuncDecl) : Resolver Unit := do
  let fn ← newEntity { kind := .func, name := d.name.text, pos := d.name.mark.pos }
  declare d.name fn
  let params ← d.params.mapM param
  let result ← d.result.mapM typ
  let throws ← d.throws.mapM errorType
  let type := Typ.func (params.map Prod.snd) result throws
  modify fun s => { s with
    tree := s.tree.setEntity fn fun e => { e with type := some type }
    funcs := (d.mark.id, ⟨fn, params.map Prod.fst, result⟩) :: s.funcs }

/-- Declares a parameter in the scope of its function. A parameter is assigned on entry, an `out`
parameter is read where the body ends. -/
def bodyParam (d : FuncDecl) (name : Ident) (id : EntityId) : Resolver Unit := do
  declare name id
  match asVar id (← entity id) with
  | none => return
  | some v =>
    if v.kind = .outParam then addFact d.body.mark (.reads ⟨v, d.body.close⟩)
    else addFact d.mark (.assigns v)

/-- A function body, which shares the scope of the parameters. -/
def funcBody (d : FuncDecl) : Resolver Unit := do
  let ids := ((← get).funcs.lookup d.mark.id).elim [] FuncEntry.params
  openScope d.mark d.body.close .function d.name.text
  (d.params.zip ids).forM fun (p, id) => bodyParam d p.name id
  shareScope d.body.mark
  stmts d.body.stmts
  closeScope

def file (f : File) : Resolver Unit := do
  openScope f.mark Pos.none .package f.package.text
  f.decls.forM fun
    | .errorDomain d => errorDomainDecl d
    | _ => return
  f.decls.forM fun
    | .func d => funcDecl d
    | .var d => globalVar d
    | _ => return
  f.funcs.forM funcBody

end Resolve

/-- The outcome of name resolution, all lists in the order of discovery. -/
structure Resolution where
  tree : ScopeTree
  package : ScopeId
  defs : List (Nat × EntityId)
  uses : List (Nat × EntityId)
  scopes : List (Nat × ScopeId)
  funcs : List (Nat × FuncEntry)
  found : List (Nat × Fact)
  reports : List ResolveReport

namespace Resolution

def ofFile (f : File) : Resolution :=
  let (_, s) := (Resolve.file f).run {}
  { tree := s.tree
    package := s.here
    defs := s.defs.reverse
    uses := s.uses.reverse
    scopes := s.scopes.reverse
    funcs := s.funcs.reverse
    found := s.facts.reverse
    reports := s.reports.reverse }

/-- What was found out about a node, oldest first. -/
def factsAt (r : Resolution) (id : Nat) : List Fact :=
  (r.found.filter fun entry => entry.1 == id).map Prod.snd

/-- The constant that an expression is, parentheses aside. -/
def constantOf (r : Resolution) : Expr → Option Bool
  | .ident name => (r.factsAt name.mark.id).findSome? fun
    | .constant value => some value
    | _ => none
  | .paren _ x => r.constantOf x
  | _ => none

/-- What resolution tells flow analysis. -/
def facts (r : Resolution) : Facts where
  defs n := (r.factsAt n.id).filterMap fun
    | .assigns v => some v
    | _ => none
  uses n := (r.factsAt n.id).filterMap fun
    | .reads u => some u
    | _ => none
  raises n := (r.factsAt n.id).filterMap fun
    | .raises e => some e
    | _ => none
  catches c := ((r.factsAt c.mark.id).findSome? fun
    | .catches e => some e
    | _ => none).getD .any
  constant := r.constantOf

/-- The variable that a name declares. -/
def definedVar? (r : Resolution) (name : Ident) : Option Var :=
  (r.defs.lookup name.mark.id).bind fun id => Resolve.asVar id (r.tree.entity id)

end Resolution

end FlowCheck
