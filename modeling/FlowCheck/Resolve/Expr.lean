import FlowCheck.Resolve.Basic

/-!
# Resolving expressions and types

The reads and raised errors of an expression are collected for the statement, condition or label
that it belongs to. A call raises what the called function declares, if it is called by its name.
-/
namespace FlowCheck.Resolve

/-- Reads in the order of evaluation, and raised errors without repetition. -/
structure Effects where
  reads : List Use := []
  raised : List ErrorType := []

namespace Effects

def read (a : Effects) (v : Var) (pos : Pos) : Effects := { a with reads := a.reads ++ [⟨v, pos⟩] }

def raise (a : Effects) (e : ErrorType) : Effects :=
  if a.raised.contains e then a else { a with raised := a.raised ++ [e] }

end Effects

/-- Attaches collected effects to a node. -/
def record (m : Mark) (a : Effects) : Resolver Unit := do
  a.reads.forM fun u => addFact m (.reads u)
  a.raised.forM fun e => addFact m (.raises e)

/-- Reads an entity at a position, if it is a variable to be followed. -/
def readEntity (a : Effects) (id : EntityId) (pos : Pos) : Resolver Effects := do
  match ← followed id with
  | some v => return a.read v pos
  | none => return a

/-- A name in an expression. -/
def nameExpr (name : Ident) (a : Effects) : Resolver Effects := do
  match ← lookup name with
  | none => return a
  | some id =>
    if let .const value := (← entity id).kind then addFact name.mark (.constant value)
    readEntity a id name.mark.pos

/-- A name that is called. -/
def calledName (name : Ident) (a : Effects) : Resolver Effects := do
  match ← lookup name with
  | none => return a
  | some id =>
    let e ← entity id
    match e.kind with
    | .func => return (e.type.elim [] Typ.throws).foldl Effects.raise a
    | _ => readEntity a id name.mark.pos

/-- A code selected from a domain by name; an unknown code of a known domain is reported. -/
def errorCode (x : Expr) (sel : Ident) : Resolver (Option EntityId) := do
  let .ident name := x | return none
  let some id ← find name.text | return none
  let d ← entity id
  let .errorDomain _ := d.kind | return none
  bindUse name id
  match (← get).tree.code? id sel.text with
  | some code =>
    bindUse sel code
    return some code
  | none =>
    report sel.mark.pos (.unknownCode d.name sel.text)
    return none

mutual

def expr : Expr → Effects → Resolver Effects
  | .ident name, a => nameExpr name a
  | .literal .., a => return a
  | .unary _ _ x, a => expr x a
  | .binary _ _ x y, a => do
    let a ← expr x a
    expr y a
  | .call _ callee args, a => do
    let a ← match callee with
      | .ident name => calledName name a
      | _ => expr callee a
    exprs args a
  | .index _ x i, a => do
    let a ← expr x a
    expr i a
  | .select _ x sel, a => do
    match ← errorCode x sel with
    | some _ => return a
    | none => expr x a
  | .paren _ x, a => expr x a
  | .sliceType m elem, a => do
    report m.pos (.notAnExpr (Expr.sliceType m elem).render)
    return a

def exprs : List Expr → Effects → Resolver Effects
  | [], a => return a
  | x :: rest, a => do
    let a ← expr x a
    exprs rest a

end

/-- The error type of an entity other than a variable. -/
def errorTypeOf? (e : Entity) : Option ErrorType :=
  if e.varKind?.isSome then none else e.type.bind Typ.errorType?

/-- `Error`, a domain, or a code of a domain. A selection that is no code counts as `Error`. -/
def errorType (x : Expr) : Resolver ErrorType := do
  match x with
  | .ident name =>
    match ← lookup name with
    | none => return .any
    | some id =>
      match errorTypeOf? (← entity id) with
      | some e => return e
      | none =>
        report x.pos (.notAnErrorType x.render)
        return .any
  | .select _ y sel =>
    match ← errorCode y sel with
    | some code => return ((← entity code).type.bind Typ.errorType?).getD .any
    | none => return .any
  | _ =>
    report x.pos (.notAnErrorType x.render)
    return .any

def typ : Expr → Resolver Typ
  | .ident name => do
    match ← lookup name with
    | none => return .basic .invalid
    | some id =>
      let e ← entity id
      match e.kind with
      | .typeName | .errorDomain _ => return e.type.getD (.basic .invalid)
      | _ =>
        report name.mark.pos (.notAType name.text)
        return .basic .invalid
  | .select m x sel => return .error (← errorType (.select m x sel))
  | .sliceType _ elem => return .slice (← typ elem)
  | x => do
    report x.pos (.notAType x.render)
    return .basic .invalid

/-- The type that a literal gives to the variable it is assigned to. -/
def literalType? : Expr → Option Typ
  | .literal _ .int _ => some (.basic .int)
  | .literal _ .float _ => some (.basic .float)
  | .literal _ .string _ => some (.basic .string)
  | _ => none

/-- The type of a variable: the one written down, or that of a literal value. -/
def varType (type value : Option Expr) : Resolver (Option Typ) :=
  match type with
  | some t => return some (← typ t)
  | none => return value.bind literalType?

/-- The error that a throw statement raises: that of the code or name thrown or called, and any
error otherwise. -/
def thrownType (x : Expr) : Resolver ErrorType := do
  let s ← get
  let thrown := match x with
    | .call _ callee _ => callee
    | _ => x
  let denoted := match thrown with
    | .select _ _ sel => s.uses.lookup sel.mark.id
    | .ident name => s.uses.lookup name.mark.id
    | _ => none
  return (denoted.bind fun id => (s.tree.entity id).type.bind Typ.errorType?).getD .any

end FlowCheck.Resolve
