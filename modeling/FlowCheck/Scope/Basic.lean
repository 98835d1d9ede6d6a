import FlowCheck.Scope.Typ
import FlowCheck.Source.Pos

/-!
# Scopes and the entities declared in them

Scopes form a tree whose root holds the predeclared names. A name is looked up in a scope and then
in the scopes around it; the first entity declared under a name in a scope keeps it.
-/
namespace FlowCheck

abbrev ScopeId := Nat

abbrev EntityId := Nat

inductive ScopeKind where
  | root
  | package
  | function
  | block
  | loop
  | foreach
  | case
  | handler
  | other (n : Nat)
  deriving DecidableEq, Repr

namespace ScopeKind

def text : ScopeKind → String
  | root => "universe"
  | package => "package"
  | function => "function"
  | block => "block"
  | loop => "for"
  | foreach => "foreach"
  | case => "case"
  | handler => "catch"
  | other n => "ScopeKind(" ++ toString n ++ ")"

/-- The kinds by number; a number beyond them is a kind of its own. -/
def ofNumber (n : Nat) : ScopeKind :=
  [root, package, function, block, loop, foreach, case, handler][n]?.getD (other n)

end ScopeKind

inductive EntityKind where
  | var (kind : VarKind)
  | typeName
  | func
  | const (value : Bool)
  | builtin (number : Nat)
  /-- A domain with its codes in declaration order. -/
  | errorDomain (codes : List EntityId)
  | errorCode
  deriving DecidableEq, Repr

def EntityKind.text : EntityKind → String
  | var kind => kind.text
  | typeName => "typename"
  | func => "func"
  | const value => if value then "const true" else "const false"
  | builtin number => "builtin " ++ toString number
  | errorDomain _ => "errordomain"
  | errorCode => "errorcode"

/-- A declared thing; `home` is the scope that holds it, once one does. -/
structure Entity where
  kind : EntityKind
  name : String
  type : Option Typ := none
  pos : Pos := Pos.none
  home : Option ScopeId := none

namespace Entity

def typeText (e : Entity) : Option String := e.type.map Typ.render

def varKind? (e : Entity) : Option VarKind :=
  match e.kind with
  | .var k => some k
  | _ => none

end Entity

/-- A scope with its members in the order of their declaration; `stop` is where it ends. -/
structure Scope where
  kind : ScopeKind
  name : String := ""
  parent : Option ScopeId := none
  children : List ScopeId := []
  members : List (String × EntityId) := []
  pos : Pos := Pos.none
  stop : Pos := Pos.none

def Scope.find? (s : Scope) (name : String) : Option EntityId := s.members.lookup name

def Scope.names (s : Scope) : List String :=
  (s.members.map Prod.fst).mergeSort fun a b => !decide (b < a)

/-- All scopes and all entities, each known by its index. -/
structure ScopeTree where
  scopes : Array Scope := #[]
  entities : Array Entity := #[]
  deriving Inhabited

namespace ScopeTree

def scope (t : ScopeTree) (s : ScopeId) : Scope := t.scopes.getD s { kind := .root }

def entity (t : ScopeTree) (e : EntityId) : Entity :=
  t.entities.getD e { kind := .typeName, name := "" }

def setEntity (t : ScopeTree) (e : EntityId) (f : Entity → Entity) : ScopeTree :=
  { t with entities := t.entities.modify e f }

/-- Adds an entity that no scope holds yet. -/
def addEntity (t : ScopeTree) (e : Entity) : EntityId × ScopeTree :=
  (t.entities.size, { t with entities := t.entities.push e })

/-- Adds a scope as the last child of its parent. -/
def addScope (t : ScopeTree) (s : Scope) : ScopeId × ScopeTree :=
  let id := t.scopes.size
  let scopes := match s.parent with
    | some p => t.scopes.modify p fun parent => { parent with children := parent.children ++ [id] }
    | none => t.scopes
  (id, { t with scopes := scopes.push s })

/-- Puts an entity into a scope under its name, unless the name is taken there: then the scope stays
as it is and the entity that has the name is returned. -/
def insert (t : ScopeTree) (s : ScopeId) (e : EntityId) : Option EntityId × ScopeTree :=
  let name := (t.entity e).name
  match (t.scope s).find? name with
  | some existing => (some existing, t)
  | none =>
    let t := t.setEntity e fun entity => { entity with home := some s }
    (none, { t with
      scopes := t.scopes.modify s fun scope =>
        { scope with members := scope.members ++ [(name, e)] } })

/-- A scope and the scopes around it, innermost first; `fuel` bounds their number. -/
def enclosingWith (t : ScopeTree) : (fuel : Nat) → Option ScopeId → List ScopeId
  | 0, _ => []
  | _, none => []
  | fuel + 1, some s => s :: t.enclosingWith fuel (t.scope s).parent

def enclosing (t : ScopeTree) (s : Option ScopeId) : List ScopeId :=
  t.enclosingWith t.scopes.size s

/-- The entity that a name denotes in a scope, and the scope that holds it. -/
def resolve? (t : ScopeTree) (s : Option ScopeId) (name : String) : Option (EntityId × ScopeId) :=
  (t.enclosing s).findSome? fun s' => ((t.scope s').find? name).map (·, s')

/-- The innermost function scope around a scope, itself included. -/
def function? (t : ScopeTree) (s : Option ScopeId) : Option ScopeId :=
  (t.enclosing s).find? fun s' => (t.scope s').kind = .function

/-- The scope that holds an entity. -/
def homeOf (t : ScopeTree) (e : EntityId) : Option Scope := (t.entity e).home.map t.scope

/-! ### Error domains -/

def addDomain (t : ScopeTree) (pos : Pos) (name : String) : EntityId × ScopeTree :=
  let id := t.entities.size
  t.addEntity {
    kind := .errorDomain [], name, pos, type := some (.error (.domain ⟨id, name⟩)) }

def codes (t : ScopeTree) (domain : EntityId) : List EntityId :=
  match (t.entity domain).kind with
  | .errorDomain codes => codes
  | _ => []

def code? (t : ScopeTree) (domain : EntityId) (name : String) : Option EntityId :=
  (t.codes domain).find? fun c => (t.entity c).name == name

/-- Adds a code to a domain and says whether it was new; a name that is taken keeps its code. -/
def addCode (t : ScopeTree) (domain : EntityId) (pos : Pos) (name : String) :
    EntityId × Bool × ScopeTree :=
  match t.code? domain name with
  | some c => (c, false, t)
  | none =>
    let d : Domain := ⟨domain, (t.entity domain).name⟩
    let (c, t) := t.addEntity {
      kind := .errorCode, name, pos, type := some (.error (.code d name)) }
    (c, true, t.setEntity domain fun e => { e with kind := .errorDomain (t.codes domain ++ [c]) })

/-! ### The predeclared names -/

def predeclared : List Entity :=
  [.bool, .int, .float, .string].map
      (fun b : Basic => { kind := .typeName, name := b.text, type := some (.basic b) })
    ++ [{ kind := .typeName, name := "Error", type := some (.error .any) },
      { kind := .const true, name := "true", type := some (.basic .bool) },
      { kind := .const false, name := "false", type := some (.basic .bool) },
      { kind := .builtin 0, name := "print" },
      { kind := .builtin 1, name := "len" }]

/-- The scope of the predeclared names. -/
def root : ScopeId := 0

/-- The tree that holds nothing but the predeclared names. -/
def initial : ScopeTree :=
  let (_, t) := ({} : ScopeTree).addScope { kind := .root }
  predeclared.foldl (fun t e =>
    let (id, t) := t.addEntity e
    (t.insert root id).2) t

/-! ### Text -/

def memberText (t : ScopeTree) (name : String) (e : EntityId) : String :=
  let entity := t.entity e
  let kind := match entity.kind with
    | .var k => k.text ++ " "
    | _ => ""
  name ++ ": " ++ kind ++ entity.typeText.getD "-"

/-- A scope with everything below it, one line a member, two spaces a level. -/
def linesWith (t : ScopeTree) : (fuel : Nat) → ScopeId → List String
  | 0, _ => []
  | fuel + 1, s =>
    let scope := t.scope s
    let title := scope.kind.text ++ (if scope.name = "" then "" else " " ++ scope.name) ++ " \x7b"
    let members := scope.names.filterMap fun n => (scope.find? n).map (t.memberText n)
    let children := scope.children.flatMap (t.linesWith fuel)
    title :: (members ++ children).map ("  " ++ ·) ++ ["\x7d"]

def text (t : ScopeTree) (s : ScopeId) : String :=
  String.join ((t.linesWith t.scopes.size s).map (· ++ "\n"))

end ScopeTree

end FlowCheck
