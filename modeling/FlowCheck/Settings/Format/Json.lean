import FlowCheck.Settings.Value
import FlowCheck.Text.CodePoint
import FlowCheck.Text.Decimal
import FlowCheck.Text.Sequence

/-!
# Settings in JSON

The settings are an object or null. Of members with the same key the last one counts. All numbers are
binary fractions, and one that exceeds them all is refused.
-/
namespace FlowCheck.JsonSettings

open Integer (isDigit)

def isBlank (c : Char) : Bool := c = ' ' || c = '\t' || c = '\n' || c = '\r'

def skip (cs : List Char) : List Char := cs.dropWhile isBlank

/-! ### Numbers -/

/-- The characters at the front of a text that a number may consist of. -/
def numberRun (cs : List Char) : List Char :=
  cs.takeWhile fun c => isDigit c || "+-.eE".toList.contains c

/-- A minus sign may stand before a number, a plus sign may not. -/
def isNumber : List Char → Bool
  | '-' :: cs => Decimal.isStrict cs
  | cs => Decimal.isStrict cs

/-! ### Texts -/

/-- What a letter after a backslash stands for. -/
def escaped? : Char → Option Char
  | '"' => some '"'
  | '\\' => some '\\'
  | '/' => some '/'
  | 'b' => some '\x08'
  | 'f' => some '\x0c'
  | 'n' => some '\n'
  | 'r' => some '\r'
  | 't' => some '\t'
  | _ => none

/-- The numbers of the characters up to the closing mark, and the text after it. -/
def units? : (fuel : Nat) → List Char → Option (List Nat × List Char)
  | fuel + 1, '\\' :: 'u' :: rest => do
    let (n, rest) ← CodePoint.hex? 4 rest
    let (ns, rest) ← units? fuel rest
    return (n :: ns, rest)
  | fuel + 1, '\\' :: c :: rest => do
    let d ← escaped? c
    let (ns, rest) ← units? fuel rest
    return (d.toNat :: ns, rest)
  | fuel + 1, c :: rest =>
    if c = '"' then some ([], rest)
    else if c = '\\' || c.toNat < 0x20 then none
    else (units? fuel rest).map fun (ns, rest) => (c.toNat :: ns, rest)
  | _, _ => none

def isHighSurrogate (n : Nat) : Bool := 0xd800 ≤ n && n < 0xdc00

def isLowSurrogate (n : Nat) : Bool := 0xdc00 ≤ n && n < 0xe000

/-- The character that two surrogates stand for. -/
def pairChar (high low : Nat) : Char :=
  Char.ofNat (0x10000 + (high - 0xd800) * 0x400 + (low - 0xdc00))

/-- A surrogate that has no partner is shown by the replacement character. -/
def charOf (n : Nat) : Char := (CodePoint.ofNat? n).getD '\ufffd'

/-- Two surrogates in a row stand for one character. -/
def joined : List Nat → List Char
  | [] => []
  | [n] => [charOf n]
  | n :: m :: rest =>
    if isHighSurrogate n && isLowSurrogate m then pairChar n m :: joined rest
    else charOf n :: joined (m :: rest)

/-- A text after its opening mark, and what follows the closing one. -/
def text? (cs : List Char) : Option (String × List Char) :=
  (units? cs.length cs).map fun (ns, rest) => (String.ofList (joined ns), rest)

/-! ### Values -/

def words : List (String × Setting) :=
  [("null", .null), ("true", .flag true), ("false", .flag false)]

/-- A word or a number, and the text after it. -/
def plain? (cs : List Char) : Option (Setting × List Char) :=
  match words.find? fun w => w.1.toList.isPrefixOf cs with
  | some (w, v) => some (v, cs.drop w.length)
  | none =>
    let run := numberRun cs
    if isNumber run then (Binary64.parse? run).map fun x => (.number x, cs.drop run.length)
    else none

/-- A member of an object, whose value is read by `value?`. -/
def member? (value? : List Char → Option (Setting × List Char)) :
    List Char → Option ((String × Setting) × List Char)
  | '"' :: rest => do
    let (key, rest) ← text? rest
    match skip rest with
    | ':' :: rest =>
      let (v, rest) ← value? (skip rest)
      return ((key, v), rest)
    | _ => none
  | _ => none

/-- The members of an object; later ones take the place of earlier ones. -/
def object (members : List (String × Setting)) : Setting :=
  .map (members.foldl (fun ms m => Setting.putMember m.1 m.2 ms) [])

def style : Sequence.Style := { skip }

/-- A value at the front of a text, and the text after it. -/
def value? : (fuel : Nat) → List Char → Option (Setting × List Char)
  | 0, _ => none
  | fuel + 1, cs =>
    match cs with
    | '"' :: rest => (text? rest).map fun (s, rest) => (.text s, rest)
    | '[' :: rest =>
      (Sequence.read? style ']' (value? fuel) rest).map fun (vs, rest) => (.list vs, rest)
    | '\x7b' :: rest =>
      (Sequence.read? style '\x7d' (member? (value? fuel)) rest).map fun (ms, rest) =>
        (object ms, rest)
    | cs => plain? cs

/-- The settings of a file. -/
def read? (s : String) : Option Setting := do
  let cs := s.toList
  let (v, rest) ← value? (cs.length + 1) (skip cs)
  match v, skip rest with
  | .null, [] => return .map []
  | .map ms, [] => return .map ms
  | _, _ => none

end FlowCheck.JsonSettings
