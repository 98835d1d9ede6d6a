import FlowCheck.Parse.Expr

/-!
# Parsing statements

Statement lists end at a closing brace, at the label of a switch section where there is one, at the
end of the file or when the parse has been given up.
-/
namespace FlowCheck.Parse

def assignOp? : Token → Option AssignOp
  | .assign => some .set
  | .define => some .define
  | _ => none

/-- Finishes an expression statement or an assignment that starts with `x`. -/
def simpleFrom (p : Pos) (x : Expr) : Parser Simple := do
  match assignOp? (← token) with
  | some op =>
    next
    return .assign { pos := p } op x (← expr)
  | none => return .expr { pos := p } x

def simple : Parser Simple := do
  let p ← pos
  simpleFrom p (← expr)

/-- A variable declaration with the end of its statement. -/
def varDecl : Parser VarDecl := do
  let p ← pos
  want (.keyword .kwVar)
  let name ← ident
  let type ← unlessAt (· = .assign) type
  let value ← after .assign expr
  semi
  return { mark := { pos := p }, name, type, value }

/-- The labels of a switch section; several may follow each other. -/
def caseLabels : ReaderT (List Expr) (ReaderT Bool Parser) (List Expr × Bool) :=
    fun values isDefault => do
  if ← got (.keyword .kwDefault) then
    want .colon
    (caseLabels.run values).run true
  else if ← got (.keyword .kwCase) then
    let more ← exprs
    want .colon
    (caseLabels.run (values ++ more)).run isDefault
  else
    return (values, isDefault)
partial_fixpoint

/-- The header of a loop after `for`, once it is known not to be a foreach loop. -/
structure LoopHeader where
  init : Option Simple
  test : Option Expr
  post : Option Simple

/-- Finishes the header of a loop given its first statement. -/
def loopHeader (p : Pos) (first : Option Simple) : Parser LoopHeader := do
  if (← token) = .lbrace then
    match first with
    | some (.expr _ x) => return ⟨none, some x, none⟩
    | _ =>
      faultAt p .expectedTest
      return ⟨none, none, none⟩
  else
    want .semi
    let test ← unlessAt (· = .semi) expr
    want .semi
    let post ← unlessAt (· = .lbrace) simple
    return ⟨first, test, post⟩

/-- The variable and type of a handler, if it has any. -/
def catchParam : Parser (Option (Ident × Expr)) := do
  if ← got .lparen then
    let name ← ident
    let type ← qualifiedName
    want .rparen
    return some (name, type)
  else
    return none

/-- A try statement at `p` has a handler or a `finally` block. -/
def guarded (p : Pos) (handlers : List CatchClause) (cleanup : Option Block) : Parser Unit :=
  if handlers.isEmpty && cleanup.isNone then faultAt p .bareTry else return

/-- Where a list of statements ends. -/
def endsList (inSwitch : Bool) : Token → Bool
  | .rbrace | .eof => true
  | .keyword .kwCase | .keyword .kwDefault => inSwitch
  | _ => false

mutual

def stmts : ReaderT Bool Parser (List Stmt) := fun inSwitch => do
  if endsList inSwitch (← token) || (← isAborted) then return []
  else
    let s ← (stmt.run ·)
    return s :: (← stmts.run inSwitch)
partial_fixpoint

def stmt : Parser Stmt := do
  let p ← pos
  match ← token with
  | .lbrace =>
    let b ← (block.run ·)
    semi
    return .block b
  | .keyword .kwIf =>
    let s ← (cond.run ·)
    semi
    return s
  | .keyword .kwFor =>
    let s ← (loop.run ·)
    semi
    return s
  | .keyword .kwSwitch => (switch.run ·)
  | .keyword .kwTry => (attempt.run ·)
  | .keyword .kwReturn =>
    next
    let result ← unlessAt (fun t => t = .semi || t = .rbrace) expr
    semi
    return .ret { pos := p } result
  | .keyword .kwThrow =>
    next
    let x ← expr
    semi
    return .raise { pos := p } x
  | .keyword .kwBreak =>
    next
    semi
    return .jump { pos := p } .toEnd
  | .keyword .kwContinue =>
    next
    semi
    return .jump { pos := p } .toNext
  | .keyword .kwVar => return .var { pos := p } (← varDecl)
  | .semi =>
    next
    return .empty { pos := p }
  | _ =>
    let s ← simple
    semi
    return .simple s
partial_fixpoint

def block : Parser Block := do
  let p ← pos
  want .lbrace
  let stmts ← stmts.run false
  let close ← pos
  want .rbrace
  return .mk { pos := p } stmts close
partial_fixpoint

/-- An if statement with all its else parts. -/
def cond : Parser Stmt := do
  let p ← pos
  want (.keyword .kwIf)
  let test ← expr
  let yes ← (block.run ·)
  if ← got (.keyword .kwElse) then
    match ← token with
    | .keyword .kwIf => return .cond { pos := p } test yes (some (← (cond.run ·)))
    | .lbrace => return .cond { pos := p } test yes (some (.block (← (block.run ·))))
    | _ =>
      fault .badElse
      recover
      return .cond { pos := p } test yes none
  else
    return .cond { pos := p } test yes none
partial_fixpoint

/-- All forms of loops. -/
def loop : Parser Stmt := do
  let p ← pos
  want (.keyword .kwFor)
  match ← token with
  | .lbrace => return .loop { pos := p } none none none (← (block.run ·))
  | .name =>
    let name ← ident
    if ← got (.keyword .kwIn) then
      let operand ← expr
      return .foreach { pos := p } name operand (← (block.run ·))
    else
      let x ← exprFrom name
      let first ← simpleFrom name.mark.pos x
      let header ← loopHeader p (some first)
      return .loop { pos := p } header.init header.test header.post (← (block.run ·))
  | _ =>
    let first ← unlessAt (· = .semi) simple
    let header ← loopHeader p first
    return .loop { pos := p } header.init header.test header.post (← (block.run ·))
partial_fixpoint

def switch : Parser Stmt := do
  let p ← pos
  want (.keyword .kwSwitch)
  let tag ← expr
  want .lbrace
  let sections ← (sections.run ·)
  let close ← pos
  want .rbrace
  semi
  return .switch { pos := p } tag sections close
partial_fixpoint

def sections : Parser (List CaseClause) := do
  let t ← token
  if t = .keyword .kwCase || t = .keyword .kwDefault then
    let p ← pos
    let (values, isDefault) ← caseLabels [] false
    let body ← stmts.run true
    return .mk { pos := p } values isDefault body :: (← (sections.run ·))
  else
    return []
partial_fixpoint

def attempt : Parser Stmt := do
  let p ← pos
  want (.keyword .kwTry)
  let body ← (block.run ·)
  let handlers ← (handlers.run ·)
  let cleanup ← (cleanup.run ·)
  guarded p handlers cleanup
  semi
  return .attempt { pos := p } body handlers cleanup
partial_fixpoint

def cleanup : Parser (Option Block) := do
  if ← got (.keyword .kwFinally) then return some (← (block.run ·))
  else return none
partial_fixpoint

def handlers : Parser (List CatchClause) := do
  if (← token) = .keyword .kwCatch then
    let p ← pos
    next
    let param ← catchParam
    let body ← (block.run ·)
    return .mk { pos := p } param body :: (← (handlers.run ·))
  else
    return []
partial_fixpoint

end

end FlowCheck.Parse
