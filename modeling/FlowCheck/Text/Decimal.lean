import FlowCheck.Text.Binary64
import FlowCheck.Text.Integer

/-!
# Decimal numbers

Numbers written with a fraction or an exponent, and the binary fractions that they stand for.
-/
namespace FlowCheck

open Integer (isDigit splitSign)

/-- A decimal number without its sign: digits before and after the point, and the exponent. -/
structure Decimal where
  whole : List Char
  frac : List Char
  exponent : Int

namespace Decimal

def natOf (ds : List Char) : Nat := (Integer.digits? 10 ds).getD 0

/-- The size of an exponent. Once it has reached ten thousand, further digits are not counted. -/
def exponentSize (ds : List Char) : Nat :=
  ds.foldl (fun n d => if n < 10000 then n * 10 + natOf [d] else n) 0

/-- An exponent that takes up the whole text. -/
def exponent? : List Char → Option Int
  | [] => some 0
  | e :: rest =>
    let (sign, ds) := splitSign rest
    if (e = 'e' || e = 'E') && !ds.isEmpty && ds.all isDigit then
      some (if sign = some '-' then -(exponentSize ds : Int) else exponentSize ds)
    else none

/-- A decimal number that takes up the whole text and starts with a digit or a point. -/
def parse? (cs : List Char) : Option Decimal :=
  let (whole, rest) := cs.span isDigit
  match rest with
  | '.' :: rest =>
    let (frac, rest) := rest.span isDigit
    if whole.isEmpty && frac.isEmpty then none else (exponent? rest).map (⟨whole, frac, ·⟩)
  | rest => if whole.isEmpty then none else (exponent? rest).map (⟨whole, [], ·⟩)

/-- The number is written without zeros in front, and its point stands between digits. -/
def isStrict (cs : List Char) : Bool :=
  let (whole, rest) := cs.span isDigit
  let rest := match rest with
    | '.' :: d :: rest => if isDigit d then rest.dropWhile isDigit else '.' :: d :: rest
    | rest => rest
  (whole = ['0'] || whole.head?.any (· ≠ '0')) && (exponent? rest).isSome

/-- The number does not exceed every 64-bit floating-point number. -/
def isFinite (d : Decimal) : Bool :=
  let mantissa := natOf (d.whole ++ d.frac)
  let scale := d.exponent - d.frac.length
  let limit := Nat.pow 2 1024 - Nat.pow 2 970
  if mantissa = 0 then true
  else if scale > 400 then false
  else if scale ≥ 0 then mantissa * Nat.pow 10 scale.toNat < limit
  else if (-scale).toNat > d.whole.length + d.frac.length then true
  else mantissa < limit * Nat.pow 10 (-scale).toNat

/-- The binary fraction nearest to a decimal number, unless it exceeds them all. -/
def toBinary64? (negative : Bool) (d : Decimal) : Option Binary64 :=
  if d.isFinite then
    some (.ofDecimal negative (natOf (d.whole ++ d.frac)) (d.exponent - d.frac.length))
  else none

end Decimal

/-- A decimal number that takes up the whole text, with a sign or without. -/
def Binary64.parse? (cs : List Char) : Option Binary64 :=
  let (sign, body) := splitSign cs
  (Decimal.parse? body).bind (Decimal.toBinary64? (sign = some '-'))

end FlowCheck
