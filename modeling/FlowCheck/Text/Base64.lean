/-!
# Bytes in base 64

Four letters stand for three bytes. The last four may end in one or two equality signs, which stand
for bytes that are not there. Line breaks may stand anywhere.
-/
namespace FlowCheck.Base64

/-- The number that a letter stands for. -/
def digit? (c : Char) : Option Nat :=
  if 'A' ≤ c && c ≤ 'Z' then some (c.toNat - 65)
  else if 'a' ≤ c && c ≤ 'z' then some (c.toNat - 71)
  else if '0' ≤ c && c ≤ '9' then some (c.toNat + 4)
  else if c = '+' then some 62
  else if c = '/' then some 63
  else none

/-- The bytes of a group of letters; bits that fill up no byte are dropped. -/
def bytesOf (a b c d : Nat) : List UInt8 :=
  let n := ((a * 64 + b) * 64 + c) * 64 + d
  [(n / 65536).toUInt8, (n / 256 % 256).toUInt8, (n % 256).toUInt8]

def decodeGroups : List Char → Option (List UInt8)
  | [] => some []
  | [a, b, '=', '='] => do return (bytesOf (← digit? a) (← digit? b) 0 0).take 1
  | [a, b, c, '='] => do return (bytesOf (← digit? a) (← digit? b) (← digit? c) 0).take 2
  | a :: b :: c :: d :: rest => do
    return bytesOf (← digit? a) (← digit? b) (← digit? c) (← digit? d) ++ (← decodeGroups rest)
  | _ => none

def decode? (s : String) : Option (List UInt8) :=
  decodeGroups (s.toList.filter fun c => c ≠ '\n' && c ≠ '\r')

end FlowCheck.Base64
