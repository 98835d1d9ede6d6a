/-!
# Error types

An error belongs to a domain and has one of its codes. An error type is a set of errors: all of
them, those of one domain, or those of one code of a domain. Any two such sets are nested or
disjoint.
-/
namespace FlowCheck

/-- A declared error domain; two domains may share a name but not an identity. -/
structure Domain where
  id : Nat
  name : String
  deriving DecidableEq, Repr

inductive ErrorType where
  | any
  | domain (d : Domain)
  | code (d : Domain) (name : String)
  deriving DecidableEq, Repr, Inhabited

namespace ErrorType

def render : ErrorType → String
  | any => "Error"
  | domain d => d.name
  | code d name => d.name ++ "." ++ name

/-- Every error of type `u` is also of type `t`. -/
def covers (t u : ErrorType) : Bool :=
  match t, u with
  | any, _ => true
  | domain d, domain d' => d = d'
  | domain d, code d' _ => d = d'
  | code d c, code d' c' => d = d' && c = c'
  | _, _ => false

/-- Some error is of both types. -/
def overlaps (t u : ErrorType) : Bool := t.covers u || u.covers t

theorem covers_refl (t : ErrorType) : t.covers t = true := by
  cases t <;> simp [covers]

theorem covers_trans {t u v : ErrorType} (h : t.covers u = true) (h' : u.covers v = true) :
    t.covers v = true := by
  cases t <;> cases u <;> cases v <;> simp_all [covers]

end ErrorType

end FlowCheck
