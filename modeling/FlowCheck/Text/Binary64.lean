/-!
# Binary fractions

A number with a fraction is kept as the nearest one that has 53 binary digits and an exponent of
limited size. It is written with the fewest decimal digits that are still nearest to it. Two
infinities and a value that is no number stand beside these numbers.
-/
namespace FlowCheck

/-- The number `mantissa * 2 ^ exponent`, or its negative. -/
structure Binary64.Finite where
  negative : Bool
  mantissa : Nat
  exponent : Int
  deriving DecidableEq, Repr

inductive Binary64 where
  | finite (x : Binary64.Finite)
  | infinite (negative : Bool)
  | notNumber
  deriving DecidableEq, Repr

namespace Binary64

def precision : Nat := 53

/-- The exponent of the smallest numbers. -/
def leastExponent : Int := -1074

/-- A positive fraction. -/
structure Ratio where
  num : Nat
  den : Nat

/-- The fraction `n * base ^ e`. -/
def Ratio.scaled (n base : Nat) (e : Int) : Ratio :=
  if 0 ≤ e then ⟨n * Nat.pow base e.toNat, 1⟩ else ⟨n, Nat.pow base (-e).toNat⟩

def Ratio.le (a b : Ratio) : Bool := a.num * b.den ≤ b.num * a.den

def Ratio.lt (a b : Ratio) : Bool := a.num * b.den < b.num * a.den

/-- The whole number nearest to `num / den`; a half goes to the even neighbour. -/
def roundEven (num den : Nat) : Nat :=
  let whole := num / den
  let rest := 2 * (num % den)
  if rest < den then whole
  else if den < rest then whole + 1
  else if whole % 2 = 0 then whole else whole + 1

/-- A fraction in units of `2 ^ q`. -/
def units (r : Ratio) (q : Int) : Nat × Nat :=
  if 0 ≤ q then (r.num, r.den * Nat.pow 2 q.toNat) else (r.num * Nat.pow 2 (-q).toNat, r.den)

/-- The exponent at which a fraction has all its binary digits. -/
def exponentFor (r : Ratio) : Int :=
  let q := max ((r.num.log2 : Int) - r.den.log2 - precision) leastExponent
  let (n, d) := units r q
  if n / d < Nat.pow 2 precision then q else q + 1

/-- The number nearest to `n * 10 ^ e`, which must not exceed all numbers. -/
def Finite.ofDecimal (negative : Bool) (n : Nat) (e : Int) : Finite :=
  if n = 0 then ⟨negative, 0, 0⟩
  else
    let r := Ratio.scaled n 10 e
    let q := exponentFor r
    let (num, den) := units r q
    let m := roundEven num den
    if m = Nat.pow 2 precision then ⟨negative, Nat.pow 2 (precision - 1), q + 1⟩ else ⟨negative, m, q⟩

def ofDecimal (negative : Bool) (n : Nat) (e : Int) : Binary64 :=
  .finite (.ofDecimal negative n e)

def isZero : Binary64 → Bool
  | finite x => x.mantissa = 0
  | _ => false

/-- The whole part, if it is a signed 64-bit number, and the least such number otherwise. -/
def Finite.truncate (x : Finite) : Int :=
  let whole : Nat :=
    if 0 ≤ x.exponent then x.mantissa * Nat.pow 2 x.exponent.toNat
    else x.mantissa / Nat.pow 2 (-x.exponent).toNat
  let limit : Int := Nat.pow 2 63
  let z : Int := if x.negative then -(whole : Int) else whole
  if -limit ≤ z && z < limit then z else -limit

def truncate : Binary64 → Int
  | finite x => x.truncate
  | _ => -(Nat.pow 2 63 : Nat)

/-- Equal as numbers: the two zeros are equal, and what is no number is not even equal to itself. -/
def equals : Binary64 → Binary64 → Bool
  | notNumber, _ => false
  | x, y => x = y || (x.isZero && y.isZero)

/-- The exact value of a number that is not negative, compared with that of another. -/
def Finite.sizeLe (x y : Finite) : Bool :=
  (Ratio.scaled x.mantissa 2 x.exponent).le (Ratio.scaled y.mantissa 2 y.exponent)

/-- Not greater than another number. What is no number comes before all numbers. -/
def le : Binary64 → Binary64 → Bool
  | notNumber, _ => true
  | _, notNumber => false
  | infinite negative, y => negative || y = infinite false
  | _, infinite negative => !negative
  | finite x, finite y =>
    if x.negative then !y.negative || y.sizeLe x else !y.negative && x.sizeLe y

/-! ### Shortest decimal digits -/

/-- The ends of the range of numbers that are nearest to `x`. -/
def Finite.bounds (x : Finite) : Ratio × Ratio :=
  let m := x.mantissa
  let low :=
    if m = Nat.pow 2 (precision - 1) && leastExponent < x.exponent then
      Ratio.scaled (4 * m - 1) 2 (x.exponent - 2)
    else Ratio.scaled (2 * m - 1) 2 (x.exponent - 1)
  (low, Ratio.scaled (2 * m + 1) 2 (x.exponent - 1))

/-- The range includes its ends if the mantissa is even. -/
def Finite.isNearest (x : Finite) (r : Ratio) : Bool :=
  let (low, high) := x.bounds
  if x.mantissa % 2 = 0 then low.le r && r.le high else low.lt r && r.lt high

/-- The multiple of `10 ^ k` that is nearest to `x`, if it reads back as `x`. -/
def Finite.onGrid? (x : Finite) (k : Int) : Option Nat :=
  let v := Ratio.scaled x.mantissa 2 x.exponent
  let (n, d) := if 0 ≤ k then (v.num, v.den * Nat.pow 10 k.toNat)
    else (v.num * Nat.pow 10 (-k).toNat, v.den)
  let near := roundEven n d
  let far := if n < near * d then near - 1 else near + 1
  if 0 < near && x.isNearest (Ratio.scaled near 10 k) then some near
  else if 0 < far && x.isNearest (Ratio.scaled far 10 k) then some far
  else none

/-- The coarsest grid that has a number reading back as `x`, starting from `10 ^ k`. -/
def Finite.shortestFrom (x : Finite) : (fuel : Nat) → Int → Nat × Int
  | 0, k => (0, k)
  | fuel + 1, k =>
    match x.onGrid? k with
    | some n => (n, k)
    | none => shortestFrom x fuel (k - 1)

/-- The fewest digits that read back as `x`, and the power of ten that they count. -/
def Finite.shortest (x : Finite) : Nat × Int :=
  if x.mantissa = 0 then (0, 0)
  else shortestFrom x 800 (((x.mantissa.log2 : Int) + x.exponent) * 30103 / 100000 + 1)

/-- The decimal text of `n * 10 ^ k` without an exponent. -/
def positional (n : Nat) (k : Int) : String :=
  if 0 ≤ k then toString (n * Nat.pow 10 k.toNat)
  else
    let places := (-k).toNat
    let ds := (toString n).toList
    let ds := List.replicate (places + 1 - ds.length) '0' ++ ds
    String.ofList (ds.take (ds.length - places) ++ '.' :: ds.drop (ds.length - places))

/-- The decimal text of `n * 10 ^ k` with one digit before the point and an exponent. -/
def scientific (n : Nat) (k : Int) : String :=
  let ds := (toString n).toList
  let e := k + ds.length - 1
  let digits := match ds with
    | d :: rest => String.ofList (if rest.isEmpty then [d] else d :: '.' :: rest)
    | [] => ""
  let size := toString e.natAbs
  digits ++ (if e < 0 then "e-" else "e+") ++ (if size.length < 2 then "0" ++ size else size)

/-- A number written by `digits`, and words for what is no finite number. -/
def textWith (digits : Nat → Int → String) : Binary64 → String
  | finite x =>
    let (n, k) := x.shortest
    (if x.negative then "-" else "") ++ digits n k
  | infinite negative => if negative then "-Inf" else "+Inf"
  | notNumber => "NaN"

/-- A number without an exponent. -/
def text : Binary64 → String := textWith positional

/-- A number with an exponent if it is very small or has more than six digits before the point. -/
def compactText : Binary64 → String :=
  textWith fun n k =>
    let e := k + (toString n).length - 1
    if n ≠ 0 && (e < -4 || 6 ≤ e) then scientific n k else positional n k

end Binary64

end FlowCheck
