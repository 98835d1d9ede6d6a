import FlowCheck.Flow.Facts
import FlowCheck.Scope.Basic

/-!
# The state of name resolution

What resolution has found out so far: the scopes, the entity that each name declares or denotes,
and the facts about nodes that flow analysis will ask for. Everything is keyed by node numbers.
-/
namespace FlowCheck

inductive ResolveFault where
  | undefined (name : String)
  | unknownCode (domain code : String)
  | redeclared (name : String)
  | redeclaredCode (code domain : String)
  | notAType (text : String)
  | notAnErrorType (text : String)
  | notAnExpr (text : String)
  | notAssignable (text : String)
  | nonNameDefined (text : String)
  | defineInPost
  deriving DecidableEq, Repr

def ResolveFault.message : ResolveFault → String
  | undefined name => "undefined: " ++ name
  | unknownCode d c =>
    d ++ "." ++ c ++ " undefined (errordomain " ++ d ++ " has no code " ++ c ++ ")"
  | redeclared name => name ++ " redeclared in this block"
  | redeclaredCode c d => c ++ " redeclared in errordomain " ++ d
  | notAType text => text ++ " is not a type"
  | notAnErrorType text => text ++ " is not an error type"
  | notAnExpr text => text ++ " is not an expression"
  | notAssignable text => "cannot assign to " ++ text
  | nonNameDefined text => "non-name " ++ text ++ " on left side of :="
  | defineInPost => "cannot declare in post statement of for loop"

structure ResolveReport where
  pos : Pos
  fault : ResolveFault
  deriving DecidableEq, Repr

def ResolveReport.render (r : ResolveReport) : String := r.pos.render ++ ": " ++ r.fault.message

/-- Something found out about a node. -/
inductive Fact where
  | assigns (v : Var)
  | reads (u : Use)
  | raises (e : ErrorType)
  | catches (e : ErrorType)
  | constant (value : Bool)
  deriving Repr

/-- A function with its parameters in order. -/
structure FuncEntry where
  entity : EntityId
  params : List EntityId
  result : Option Typ

namespace Resolve

/-- All lists have the newest entry first. -/
structure State where
  tree : ScopeTree := .initial
  /-- The scope that is open. -/
  here : ScopeId := ScopeTree.root
  defs : List (Nat × EntityId) := []
  uses : List (Nat × EntityId) := []
  scopes : List (Nat × ScopeId) := []
  funcs : List (Nat × FuncEntry) := []
  facts : List (Nat × Fact) := []
  reports : List ResolveReport := []

end Resolve

abbrev Resolver := StateM Resolve.State

namespace Resolve

def report (pos : Pos) (fault : ResolveFault) : Resolver Unit :=
  modify fun s => { s with reports := ⟨pos, fault⟩ :: s.reports }

def addFact (node : Mark) (fact : Fact) : Resolver Unit :=
  modify fun s => { s with facts := (node.id, fact) :: s.facts }

def entity (e : EntityId) : Resolver Entity := return (← get).tree.entity e

def newEntity (e : Entity) : Resolver EntityId :=
  modifyGet fun s =>
    let (id, tree) := s.tree.addEntity e
    (id, { s with tree })

/-- Makes a scope inside the open one, belonging to the node `m`. -/
def openScope (m : Mark) (stop : Pos) (kind : ScopeKind) (name : String := "") : Resolver Unit :=
  modify fun s =>
    let (id, tree) := s.tree.addScope { kind, name, parent := some s.here, pos := m.pos, stop }
    { s with tree, here := id, scopes := (m.id, id) :: s.scopes }

/-- Goes back to the scope around the open one. -/
def closeScope : Resolver Unit :=
  modify fun s => { s with here := (s.tree.scope s.here).parent.getD ScopeTree.root }

/-- Lets the node `m` share the open scope. -/
def shareScope (m : Mark) : Resolver Unit :=
  modify fun s => { s with scopes := (m.id, s.here) :: s.scopes }

/-- Declares an entity under a name in the open scope, unless the scope already has that name. -/
def declare (name : Ident) (e : EntityId) : Resolver Unit := do
  let s ← get
  match s.tree.insert s.here e with
  | (some _, _) => report name.mark.pos (.redeclared name.text)
  | (none, tree) => set { s with tree, defs := (name.mark.id, e) :: s.defs }

def bindUse (name : Ident) (e : EntityId) : Resolver Unit :=
  modify fun s => { s with uses := (name.mark.id, e) :: s.uses }

/-- What a name denotes here, found and not recorded. -/
def find (name : String) : Resolver (Option EntityId) := do
  let s ← get
  return (s.tree.resolve? (some s.here) name).map Prod.fst

/-- What a name denotes here; an undefined name is reported. -/
def lookup (name : Ident) : Resolver (Option EntityId) := do
  match ← find name.text with
  | some e =>
    bindUse name e
    return some e
  | none =>
    report name.mark.pos (.undefined name.text)
    return none

/-- The variable that an entity is. -/
def asVar (id : EntityId) (e : Entity) : Option Var :=
  e.varKind?.map fun kind => ⟨id, e.name, kind, e.pos⟩

/-- The variable that an entity is, if a function holds it: package variables are assigned before
any function runs and are not followed. -/
def followed (id : EntityId) : Resolver (Option Var) := do
  let tree := (← get).tree
  let e := tree.entity id
  return if (tree.function? e.home).isSome then asVar id e else none

/-- A new variable of the given kind and type, named by `name`. -/
def newVar (name : Ident) (kind : VarKind) (type : Option Typ) : Resolver EntityId :=
  newEntity { kind := .var kind, name := name.text, type, pos := name.mark.pos }

/-- Records that the node `m` assigns an entity, if it is a variable to be followed. -/
def assigns (m : Mark) (id : EntityId) : Resolver Unit := do
  if let some v ← followed id then addFact m (.assigns v)

end Resolve

end FlowCheck
