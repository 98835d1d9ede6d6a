import FlowCheck.Source.Pos

/-!
# Diagnostics

A finding about a program: the stage that made it, how serious it is, a stable code, a position
and a message.
-/
namespace FlowCheck

inductive Stage where
  | parser
  | resolve
  | flow
  | other (name : String)
  deriving DecidableEq, Repr

def Stage.text : Stage → String
  | parser => "parser"
  | resolve => "resolve"
  | flow => "flow"
  | other name => name

inductive Severity where
  | error
  | warning
  | other (name : String)
  deriving DecidableEq, Repr

namespace Severity

def text : Severity → String
  | error => "error"
  | warning => "warning"
  | other name => name

def ofText : String → Severity
  | "error" => error
  | "warning" => warning
  | name => other name

end Severity

inductive Code where
  | malformed
  | undefined
  | redeclared
  | notAssignable
  | notAnErrorType
  | invalidStatement
  | unreachableCode
  | unassignedLocal
  | unassignedParam
  | missingReturn
  | noEnclosingLoop
  | doubleCatch
  | jumpOutOfFinally
  | missingBreak
  | unreachableCatch
  | other (name : String)
  deriving DecidableEq, Repr

def Code.text : Code → String
  | malformed => "SYNTAX"
  | undefined => "RESOLVE_UNDEFINED"
  | redeclared => "RESOLVE_REDECLARED"
  | notAssignable => "RESOLVE_NOT_ASSIGNABLE"
  | notAnErrorType => "RESOLVE_NOT_AN_ERROR_TYPE"
  | invalidStatement => "RESOLVE_INVALID_STATEMENT"
  | unreachableCode => "FLOW_UNREACHABLE_CODE"
  | unassignedLocal => "FLOW_UNASSIGNED_LOCAL"
  | unassignedParam => "FLOW_UNASSIGNED_PARAM"
  | missingReturn => "FLOW_MISSING_RETURN"
  | noEnclosingLoop => "FLOW_NO_ENCLOSING_LOOP"
  | doubleCatch => "FLOW_DOUBLE_CATCH"
  | jumpOutOfFinally => "FLOW_JUMP_OUT_OF_FINALLY"
  | missingBreak => "FLOW_MISSING_BREAK"
  | unreachableCatch => "FLOW_UNREACHABLE_CATCH"
  | other name => name

structure Diagnostic where
  stage : Stage
  severity : Severity
  code : Code
  pos : Pos
  message : String
  deriving DecidableEq, Repr

namespace Diagnostic

def isError (d : Diagnostic) : Bool := d.severity = .error

def render (d : Diagnostic) : String :=
  d.pos.render ++ ": " ++ d.severity.text ++ ": " ++ d.message

end Diagnostic

end FlowCheck
