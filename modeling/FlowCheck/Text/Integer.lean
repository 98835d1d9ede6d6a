/-!
# Integer literals

Numbers as people write them in settings: an optional sign, an optional base (`0x`, `0o`, `0b`, or
a leading zero for octal), digits, and underscores between digits. Values are limited to 64 bits.
-/
namespace FlowCheck.Integer

inductive Failure where
  | malformed
  | outOfRange
  deriving DecidableEq, Repr

def Failure.message : Failure → String
  | malformed => "invalid syntax"
  | outOfRange => "value out of range"

def isDigit (c : Char) : Bool := '0' ≤ c && c ≤ '9'

def digitValue? (c : Char) : Option Nat :=
  if isDigit c then some (c.toNat - 48)
  else if 'a' ≤ c && c ≤ 'z' then some (c.toNat - 87)
  else if 'A' ≤ c && c ≤ 'Z' then some (c.toNat - 55)
  else none

/-- The value of a row of digits of a base. -/
def digits? (base : Nat) (cs : List Char) : Option Nat :=
  cs.foldl (fun value c => do
    let n ← value
    let d ← digitValue? c
    if d < base then some (n * base + d) else none) (some 0)

/-- The base that digits announce, and the digits without the announcement. -/
def splitBase : List Char → Nat × List Char
  | '0' :: b :: d :: rest =>
    if b = 'x' || b = 'X' then (16, d :: rest)
    else if b = 'o' || b = 'O' then (8, d :: rest)
    else if b = 'b' || b = 'B' then (2, d :: rest)
    else (8, b :: d :: rest)
  | '0' :: rest => (8, rest)
  | cs => (10, cs)

/-- A sign, if there is one, and the rest. -/
def splitSign : List Char → Option Char × List Char
  | '+' :: rest => (some '+', rest)
  | '-' :: rest => (some '-', rest)
  | cs => (none, cs)

/-- The value of an unsigned number without underscores. -/
def magnitude? (cs : List Char) : Option Nat :=
  if cs.isEmpty then none
  else
    let (base, ds) := splitBase cs
    digits? base ds

/-- The last thing seen while underscores are checked. -/
inductive Seen where
  | start
  | digit
  | underscore
  | other
  deriving DecidableEq

def placedFrom (isHex : Bool) : Seen → List Char → Bool
  | seen, [] => seen ≠ .underscore
  | seen, c :: rest =>
    if isDigit c || (isHex && (digitValue? c).any (· < 16)) then placedFrom isHex .digit rest
    else if c = '_' then seen = .digit && placedFrom isHex .underscore rest
    else seen ≠ .underscore && placedFrom isHex .other rest

/-- Underscores stand only between digits, or between a base and a digit. -/
def underscoresPlaced (cs : List Char) : Bool :=
  match (splitSign cs).2 with
  | '0' :: b :: rest =>
    if b = 'x' || b = 'X' then placedFrom true .digit rest
    else if b = 'o' || b = 'O' || b = 'b' || b = 'B' then placedFrom false .digit rest
    else placedFrom false .start ('0' :: b :: rest)
  | body => placedFrom false .start body

/-- The number of 64-bit words. -/
def words : Nat := Nat.pow 2 64

/-- The number of signed 64-bit words that are not negative. -/
def signedWords : Nat := Nat.pow 2 63

/-- A signed 64-bit number. Digits that go beyond 64 bits are out of range whatever follows them. -/
def parse (s : String) : Except Failure Int :=
  let cs := s.toList
  let (sign, body) := splitSign cs
  let (base, ds) := splitBase (body.filter (· ≠ '_'))
  let valid := ds.takeWhile fun c => (digitValue? c).any (· < base)
  let n := (digits? base valid).getD 0
  if body.isEmpty then .error .malformed
  else if words ≤ n then .error .outOfRange
  else if valid.length < ds.length then .error .malformed
  else if body.contains '_' && !underscoresPlaced cs then .error .malformed
  else if sign = some '-' then if n ≤ signedWords then .ok (-(n : Int)) else .error .outOfRange
  else if n < signedWords then .ok n
  else .error .outOfRange

end FlowCheck.Integer
