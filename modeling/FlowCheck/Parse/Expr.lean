import FlowCheck.Parse.State

/-!
# Parsing expressions and types

Binary operators are read by precedence climbing and group to the left. Calls, indexing and
selection bind tighter than the operators in front of an operand. The productions call each other
without a bound: that they come to an end is a theorem about the lexemes that they consume.
-/
namespace FlowCheck.Parse

/-- A selection from `x`; the current token is the point. -/
def selection (x : Expr) : Parser Expr := do
  want .dot
  return .select { pos := x.pos } x (← ident)

/-- A name or a name selected from one, as error types are written. -/
def qualifiedName : Parser Expr := do
  let x := Expr.ident (← ident)
  if (← token) = .dot then selection x else return x

/-- A missing operand, which consumes nothing. -/
def missing (f : ParseFault) : Parser Expr := do
  fault f
  return .ident (placeholder (← pos))

/-- A type: a name, or a slice of a type. -/
def type : Parser Expr := do
  match ← token with
  | .name => return .ident (← ident)
  | .lbrack =>
    let p ← pos
    next
    want .rbrack
    return .sliceType { pos := p } (← (type.run ·))
  | _ => missing .expectedType
partial_fixpoint

/-- The operator that a token is in front of an operand. -/
def unaryOp? : Token → Option UnaryOp
  | .not => some .not
  | .op .sub => some .neg
  | _ => none

mutual

/-- An expression whose operators bind tighter than `limit`. -/
def binary : ReaderT Nat Parser Expr := fun limit => do
  let x ← (unary.run ·)
  (binaryFrom.run x).run limit
partial_fixpoint

/-- Continues an expression whose first operand is `x`. -/
def binaryFrom : ReaderT Expr (ReaderT Nat Parser) Expr := fun x limit => do
  match ← token with
  | .op o =>
    if o.precedence ≤ limit then return x
    else
      next
      let y ← binary.run o.precedence
      (binaryFrom.run (.binary { pos := x.pos } o x y)).run limit
  | _ => return x
partial_fixpoint

def unary : Parser Expr := do
  let p ← pos
  match unaryOp? (← token) with
  | some op =>
    next
    return .unary { pos := p } op (← (unary.run ·))
  | none =>
    let x ← (operand.run ·)
    trailers.run x
partial_fixpoint

/-- Calls, indexing and selection after `x`. -/
def trailers : ReaderT Expr Parser Expr := fun x => do
  match ← token with
  | .lparen =>
    next
    let args ← (arguments.run ·)
    want .rparen
    trailers.run (.call { pos := x.pos } x args)
  | .lbrack =>
    next
    let i ← binary.run 0
    want .rbrack
    trailers.run (.index { pos := x.pos } x i)
  | .dot =>
    let y ← selection x
    trailers.run y
  | _ => return x
partial_fixpoint

def operand : Parser Expr := do
  let l := (← get).current
  match l.token with
  | .name => return .ident (← ident)
  | .literal kind =>
    next
    return .literal { pos := l.pos } kind l.text
  | .lparen =>
    next
    let x ← binary.run 0
    want .rparen
    return .paren { pos := l.pos } x
  | _ => missing .expectedOperand
partial_fixpoint

/-- The arguments of a call up to the closing parenthesis. -/
def arguments : Parser (List Expr) := do
  if (← token) = .rparen then return []
  else (exprs.run ·)
partial_fixpoint

/-- One or more expressions separated by commas. -/
def exprs : Parser (List Expr) := do
  let x ← binary.run 0
  if ← got .comma then return x :: (← (exprs.run ·))
  else return [x]
partial_fixpoint

end

def expr : Parser Expr := binary 0

/-- An expression whose leading name has been consumed. -/
def exprFrom (name : Ident) : Parser Expr := do
  let x ← trailers (.ident name)
  binaryFrom x 0

end FlowCheck.Parse
