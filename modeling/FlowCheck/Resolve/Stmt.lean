import FlowCheck.Resolve.Expr

/-!
# Resolving statements

The facts of a simple statement belong to the statement; those of a condition, a switch tag or the
operand of a foreach loop belong to the expression, those of case labels to their section, and a
handler's variable to the handler.
-/
namespace FlowCheck.Resolve

/-- An expression that is a node of the flow graph by itself. -/
def cond (x : Expr) : Resolver Unit := do
  record x.mark (← expr x {})

def condOption (x : Option Expr) : Resolver Unit := x.forM cond

/-- A variable introduced by an assignment; it is in scope after the value. -/
def define (m : Mark) (target value : Expr) : Resolver Unit := do
  record m (← expr value {})
  match target with
  | .ident name =>
    let v ← newVar name .local (literalType? value)
    declare name v
    assigns m v
  | _ => report target.pos (.nonNameDefined target.render)

/-- A change of a variable, or of an element, which reads the variable that holds it. -/
def assign (m : Mark) (target value : Expr) : Resolver Unit := do
  let a ← expr value {}
  match target with
  | .ident name =>
    if let some id ← lookup name then
      match (← entity id).varKind? with
      | some _ => assigns m id
      | none => report name.mark.pos (.notAssignable name.text)
    record m a
  | .index .. => record m (← expr target a)
  | _ =>
    report target.pos (.notAssignable target.render)
    record m a

def simple : Simple → Resolver Unit
  | .expr m x => do record m (← expr x {})
  | .assign m .define target value => define m target value
  | .assign m .set target value => assign m target value

def simpleOption (s : Option Simple) : Resolver Unit := s.forM simple

/-- The statement after each round of a loop, which may not introduce a variable. -/
def postStmt : Option Simple → Resolver Unit
  | none => return
  | some s => do
    if let .assign m .define _ _ := s then report m.pos .defineInPost
    simple s

/-- A variable of a function body; it is in scope after its value. -/
def localVar (m : Mark) (d : VarDecl) : Resolver Unit := do
  match d.value with
  | some x => record m (← expr x {})
  | none => pure ()
  let v ← newVar d.name .local (← varType d.type d.value)
  declare d.name v
  if d.value.isSome then assigns m v

/-- A variable that a loop or handler assigns, in the scope that was opened for it. -/
def headerVar (m : Mark) (name : Ident) (type : Option Typ) : Resolver Unit := do
  let v ← newVar name .local type
  declare name v
  assigns m v

mutual

def stmt : Stmt → Resolver Unit
  | .empty _ => return
  | .jump .. => return
  | .simple s => simple s
  | .var m d => localVar m d
  | .block b => block b
  | .cond _ test yes no => do
    cond test
    block yes
    stmtOption no
  | .loop m init test post body => do
    openScope m body.close .loop
    simpleOption init
    condOption test
    postStmt post
    block body
    closeScope
  | .foreach m v operand body => do
    cond operand
    openScope m body.close .foreach
    headerVar m v none
    block body
    closeScope
  | .switch _ tag sections close => do
    cond tag
    caseClauses close sections
  | .ret m result => do
    if let some x := result then record m (← expr x {})
  | .raise m x => do
    let a ← expr x {}
    record m (a.raise (← thrownType x))
  | .attempt _ body handlers cleanup => do
    block body
    catchClauses handlers
    blockOption cleanup

def stmtOption : Option Stmt → Resolver Unit
  | none => return
  | some s => stmt s

def stmts : List Stmt → Resolver Unit
  | [] => return
  | s :: rest => do
    stmt s
    stmts rest

def block : Block → Resolver Unit
  | .mk m body close => do
    openScope m close .block
    stmts body
    closeScope

def blockOption : Option Block → Resolver Unit
  | none => return
  | some b => block b

def caseClause (close : Pos) : CaseClause → Resolver Unit
  | .mk m values _ body => do
    record m (← exprs values {})
    openScope m close .case
    stmts body
    closeScope

def caseClauses (close : Pos) : List CaseClause → Resolver Unit
  | [] => return
  | c :: rest => do
    caseClause close c
    caseClauses close rest

/-- The variable of a handler shares the scope of its body. -/
def catchClause : CatchClause → Resolver Unit
  | .mk m param (.mk bodyMark body close) => do
    let accepted ← match param with
      | some (_, type) => errorType type
      | none => pure .any
    addFact m (.catches accepted)
    openScope m close .handler
    if let some (name, _) := param then headerVar m name (some (.error accepted))
    stmts body
    shareScope bodyMark
    closeScope

def catchClauses : List CatchClause → Resolver Unit
  | [] => return
  | c :: rest => do
    catchClause c
    catchClauses rest

end

end FlowCheck.Resolve
