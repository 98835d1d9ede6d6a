import FlowCheck.Settings.Value
import FlowCheck.Source.Symbol
import FlowCheck.Text.Base64
import FlowCheck.Text.Decimal
import FlowCheck.Text.Yaml.Node

/-!
# What texts in YAML stand for

A bare text may spell null, a boolean, a number or a point in time. A tag demands that the text
spells something of its kind.
-/
namespace FlowCheck.Setting

open Integer (isDigit splitSign)
open Yaml (Tag)

/-- A whole number without a sign that may use the sign bit. -/
def unsigned? (cs : List Char) : Option Int := do
  let n ← Integer.magnitude? cs
  if n < Integer.words then some (n : Int) else none

/-- A whole number of a base, with a sign or without. -/
def basedInteger? (base : Nat) (cs : List Char) : Option Int := do
  let (sign, ds) := splitSign cs
  if ds.isEmpty then none
  else
    let n ← Integer.digits? base ds
    if sign = some '-' then if n ≤ Integer.signedWords then some (-(n : Int)) else none
    else if n < Integer.signedWords || (sign.isNone && n < Integer.words) then some (n : Int)
    else none

/-- A whole number whose sign stands after the base. -/
def innerSigned? : List Char → Option Int
  | '0' :: 'b' :: rest => basedInteger? 2 rest
  | '0' :: 'o' :: rest => basedInteger? 8 rest
  | _ => none

/-- The number that a text spells after its underscores are taken away. -/
def spelledNumber? (s : String) : Option Setting :=
  let bare := s.toList.filter (· ≠ '_')
  match Integer.parse (String.ofList bare) with
  | .ok z => some (.int z)
  | .error _ =>
    ((unsigned? bare).map .int).or (((Binary64.parse? bare).map .number).or
      ((innerSigned? bare).map .int))

/-- Words for null, booleans and numbers that have no digits. -/
def words : List (String × Setting) :=
  ["", "~", "null", "Null", "NULL"].map (·, .null)
    ++ ["true", "True", "TRUE"].map (·, .flag true)
    ++ ["false", "False", "FALSE"].map (·, .flag false)
    ++ [".nan", ".NaN", ".NAN"].map (·, .number .notNumber)
    ++ [".inf", ".Inf", ".INF", "+.inf", "+.Inf", "+.INF"].map (·, .number (.infinite false))
    ++ ["-.inf", "-.Inf", "-.INF"].map (·, .number (.infinite true))

/-- What a text spells. Dates count only if `dates` is set. -/
def spelled (dates : Bool) (s : String) : Setting :=
  match words.lookup s, s.toList with
  | some v, _ => v
  | none, [] => .null
  | none, c :: rest =>
    let cs := c :: rest
    if c = '.' then
      if Integer.underscoresPlaced cs then
        (Binary64.parse? (cs.filter (· ≠ '_'))).elim (.text s) .number
      else .text s
    else if isDigit c || c = '+' || c = '-' then
      match (if dates then Timestamp.parse? cs else none) with
      | some t => .time t
      | none => (spelledNumber? s).getD (.text s)
    else .text s

/-- A text that is given by its bytes; bytes that encode no character are shown as such. -/
def ofBytes (bytes : List UInt8) : String := String.ofList ((Symbol.decode bytes).map Symbol.char)

/-- What a text with a tag stands for, if it is of the kind that the tag demands. A whole number is
also a number with a fraction. Tags without a meaning change nothing. -/
def ofTagged? : Option Tag → String → Option Setting
  | none, s => some (spelled true s)
  | some .str, s | some .merge, s | some (.other _), s => some (.text s)
  | some .binary, s => (Base64.decode? s).map fun bytes => .text (ofBytes bytes)
  | some .null, s => match spelled false s with
    | .null => some .null
    | _ => none
  | some .bool, s => match spelled false s with
    | .flag b => some (.flag b)
    | _ => none
  | some .int, s => match spelled false s with
    | .int z => some (.int z)
    | _ => none
  | some .float, s => match spelled false s with
    | .number x => some (.number x)
    | .int z =>
      if z < Integer.signedWords then some (.number (.ofDecimal (z < 0) z.natAbs 0)) else none
    | _ => none
  | some .timestamp, s => match spelled true s with
    | .time t => some (.time t)
    | _ => none

end FlowCheck.Setting
