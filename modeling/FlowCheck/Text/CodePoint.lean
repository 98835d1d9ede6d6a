import FlowCheck.Text.Integer

/-!
# Characters by number

Escapes give a character by the hexadecimal digits of its number.
-/
namespace FlowCheck.CodePoint

/-- The character with a number, unless it is a surrogate or beyond all characters. -/
def ofNat? (n : Nat) : Option Char := if n.isValidChar then some (Char.ofNat n) else none

/-- The number that so many hexadecimal digits stand for, and the text after them. -/
def hex? (width : Nat) (cs : List Char) : Option (Nat × List Char) :=
  let digits := cs.take width
  if digits.length < width then none
  else (Integer.digits? 16 digits).map (·, cs.drop width)

/-- The character that so many hexadecimal digits stand for, and the text after them. -/
def ofHex? (width : Nat) (cs : List Char) : Option (Char × List Char) := do
  let (n, rest) ← hex? width cs
  return (← ofNat? n, rest)

end FlowCheck.CodePoint
