import FlowCheck.Text.Decimal
import FlowCheck.Text.Timestamp

/-!
# Texts that YAML readers take for something else

A bare text that spells a boolean, a null, a number or a date is not read back as a text. Such
texts are put in quotation marks when they are written.
-/
namespace FlowCheck.Yaml

open Integer (isDigit splitSign)

/-- Words for booleans, nulls and special numbers. -/
def words : List String :=
  ["y", "Y", "yes", "Yes", "YES", "true", "True", "TRUE", "on", "On", "ON",
    "n", "N", "no", "No", "NO", "false", "False", "FALSE", "off", "Off", "OFF",
    "", "~", "null", "Null", "NULL", ".nan", ".NaN", ".NAN", ".inf", ".Inf", ".INF",
    "+.inf", "+.Inf", "+.INF", "-.inf", "-.Inf", "-.INF"]

/-! ### Numbers -/

def isFloat (cs : List Char) : Bool := (Decimal.parse? (splitSign cs).2).any Decimal.isFinite

/-- An integer of at most 64 bits; one without a sign may use the sign bit. -/
def isInteger (cs : List Char) : Bool :=
  let (sign, body) := splitSign cs
  match sign, Integer.magnitude? body with
  | none, some n => n < Integer.words
  | some '-', some n => n ≤ Integer.signedWords
  | some _, some n => n < Integer.signedWords
  | _, none => false

/-- Binary digits that follow `0b` with a sign of their own. -/
def isSignedBinary : List Char → Bool
  | '0' :: 'b' :: rest =>
    let (sign, ds) := splitSign rest
    !ds.isEmpty && (Integer.digits? 2 ds).any fun n =>
      if sign = some '-' then n ≤ Integer.signedWords else n < Integer.signedWords
  | _ => false

/-! ### Base sixty -/

/-- Groups of sixty at the end of a number, with an optional point and digits. -/
def isSexagesimalTail : (fuel : Nat) → List Char → Bool
  | 0, _ => false
  | fuel + 1, cs =>
    match Timestamp.upToTwo? cs with
    | none => false
    | some (n, rest) =>
      n < 60 && match rest with
        | [] => true
        | ':' :: rest => isSexagesimalTail fuel rest
        | '.' :: rest => rest.all fun c => isDigit c || c = '_'
        | _ => false

/-- A number in groups of sixty, such as `1:30`. -/
def isSexagesimal (cs : List Char) : Bool :=
  match (splitSign cs).2 with
  | d :: rest =>
    isDigit d && match rest.dropWhile fun c => isDigit c || c = '_' with
      | ':' :: rest => isSexagesimalTail rest.length rest
      | _ => false
  | [] => false

/-- A text that would not be read back as a text if it stood bare. -/
def isImplicit (s : String) : Bool :=
  let cs := s.toList
  words.contains s || match cs with
    | [] => true
    | c :: _ =>
      if c = '.' then
        Integer.underscoresPlaced cs && (Decimal.parse? (cs.filter (· ≠ '_'))).any Decimal.isFinite
      else if isDigit c || c = '+' || c = '-' then
        let bare := cs.filter (· ≠ '_')
        (Timestamp.parse? cs).isSome || isInteger bare || isFloat bare || isSignedBinary bare
          || isSexagesimal cs
      else false

end FlowCheck.Yaml
