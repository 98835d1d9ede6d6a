import FlowCheck.Scope.ErrorType

/-!
# Types

As much of the type system as error handling needs: scalar types, slices, error types and the
types of functions with the errors they declare.
-/
namespace FlowCheck

inductive Basic where
  | invalid
  | bool
  | int
  | float
  | string
  deriving DecidableEq, Repr

def Basic.text : Basic → String
  | invalid => "invalid type"
  | bool => "bool"
  | int => "int"
  | float => "float"
  | string => "string"

inductive VarKind where
  /-- A variable declared in a body or at package level. -/
  | local
  /-- A parameter that is assigned on entry. -/
  | param
  /-- A parameter that is unassigned on entry and read on return. -/
  | outParam
  deriving DecidableEq, Repr, Inhabited

def VarKind.text : VarKind → String
  | .local => "local"
  | .param => "param"
  | .outParam => "out param"

def VarKind.isParam : VarKind → Bool
  | .local => false
  | _ => true

/-- A function type lists its parameters by kind and type; without a result it returns nothing. -/
inductive Typ where
  | basic (b : Basic)
  | slice (elem : Typ)
  | error (e : ErrorType)
  | func (params : List (VarKind × Typ)) (result : Option Typ) (throws : List ErrorType)

namespace Typ

instance : Inhabited Typ := ⟨basic .invalid⟩

/-- The error type that a type is, if it is one. -/
def errorType? : Typ → Option ErrorType
  | error e => some e
  | _ => none

/-- The errors that a call of a function of this type can raise. -/
def throws : Typ → List ErrorType
  | func _ _ es => es
  | _ => []

def elem? : Typ → Option Typ
  | slice t => some t
  | _ => none

/-- The declared errors after a signature. -/
def renderThrows : List ErrorType → String
  | [] => ""
  | es => " throws " ++ ", ".intercalate (es.map ErrorType.render)

mutual

def render : Typ → String
  | basic b => b.text
  | slice t => "[]" ++ t.render
  | error e => e.render
  | func params none throws => "func(" ++ renderParams params ++ ")" ++ renderThrows throws
  | func params (some t) throws =>
    "func(" ++ renderParams params ++ ") " ++ t.render ++ renderThrows throws

def renderParams : List (VarKind × Typ) → String
  | [] => ""
  | [(k, t)] => (if k = .outParam then "out " else "") ++ t.render
  | (k, t) :: p :: rest =>
    (if k = .outParam then "out " else "") ++ t.render ++ ", " ++ renderParams (p :: rest)

end

end Typ

end FlowCheck
