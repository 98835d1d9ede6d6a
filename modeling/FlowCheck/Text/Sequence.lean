/-!
# Sequences in brackets

Items with commas between them, up to a closing sign. What may stand between items and signs is a
matter of the format, and so is a comma after the last item.
-/
namespace FlowCheck.Sequence

/-- How a format writes sequences. -/
structure Style where
  /-- Passes over what may stand between items and signs. -/
  skip : List Char → List Char
  /-- A comma may follow the last item. -/
  allowsLastComma : Bool := false

/-- The items of a sequence that is not empty, and the text after it. -/
def items? (style : Style) (close : Char) (item? : List Char → Option (α × List Char)) :
    (fuel : Nat) → List Char → Option (List α × List Char)
  | 0, _ => none
  | fuel + 1, cs => do
    let (x, rest) ← item? (style.skip cs)
    match style.skip rest with
    | [] => none
    | c :: rest =>
      if c = close then some ([x], rest)
      else if c ≠ ',' then none
      else
        let next := style.skip rest
        if style.allowsLastComma && next.head? = some close then some ([x], next.tail)
        else (items? style close item? fuel rest).map fun (xs, rest) => (x :: xs, rest)

/-- The items of a sequence after its opening sign, and the text after it. -/
def read? (style : Style) (close : Char) (item? : List Char → Option (α × List Char))
    (cs : List Char) : Option (List α × List Char) :=
  let start := style.skip cs
  if start.head? = some close then some ([], start.tail)
  else items? style close item? (cs.length + 1) cs

end FlowCheck.Sequence
