import FlowCheck.Settings.Format.Json
import FlowCheck.Text.Space

/-!
# Settings in blocks

The settings are keys with values after an equality sign, and blocks of settings in braces. A block
is a list of one map, and blocks with the same key make one list. A key of many parts stands for
blocks inside each other. A file that starts with a brace is read as an object of JSON.
-/
namespace FlowCheck.HclSettings

open Integer (isDigit)

/-! ### Gaps -/

/-- What is being passed over. -/
inductive Gap where
  | blank
  | line
  | block
  deriving DecidableEq

/-- Passes over blanks, line ends and comments. -/
def skipGap : Gap → List Char → List Char
  | _, [] => []
  | .line, c :: rest => skipGap (if c = '\n' then .blank else .line) rest
  | .block, '*' :: '/' :: rest => skipGap .blank rest
  | .block, _ :: rest => skipGap .block rest
  | .blank, '/' :: '/' :: rest => skipGap .line rest
  | .blank, '/' :: '*' :: rest => skipGap .block rest
  | .blank, c :: rest =>
    if c = '#' then skipGap .line rest
    else if c = ' ' || c = '\t' || c = '\n' || c = '\r' then skipGap .blank rest
    else c :: rest

def skip : List Char → List Char := skipGap .blank

/-! ### Texts -/

/-- What follows a backslash, and the text after it. -/
def escape? : List Char → Option (Char × List Char)
  | [] => none
  | c :: rest =>
    match c with
    | 'a' => some ('\x07', rest)
    | 'b' => some ('\x08', rest)
    | 'f' => some ('\x0c', rest)
    | 'n' => some ('\n', rest)
    | 'r' => some ('\r', rest)
    | 't' => some ('\t', rest)
    | 'v' => some ('\x0b', rest)
    | '\\' => some ('\\', rest)
    | '"' => some ('"', rest)
    | 'x' => CodePoint.ofHex? 2 rest
    | 'u' => CodePoint.ofHex? 4 rest
    | 'U' => CodePoint.ofHex? 8 rest
    | c => do
      let digits := (c :: rest).take 3
      if digits.length < 3 then none
      else return (← CodePoint.ofNat? (← Integer.digits? 8 digits), rest.drop 2)

/-- A text up to the closing mark, and what follows. In braces after a dollar sign everything stands
for itself; `braces` counts those that are open. -/
def text? : (fuel : Nat) → (braces : Nat) → List Char → Option (List Char × List Char)
  | 0, _, _ | _, _, [] => none
  | fuel + 1, braces, c :: rest =>
    let keep (braces : Nat) : Option (List Char × List Char) :=
      (text? fuel braces rest).map fun (cs, rest) => (c :: cs, rest)
    if 0 < braces then
      keep (if c = '\x7b' then braces + 1 else if c = '\x7d' then braces - 1 else braces)
    else if c = '"' then some ([], rest)
    else if c = '\n' then none
    else if c = '\\' then do
      let (c, rest) ← escape? rest
      let (cs, rest) ← text? fuel 0 rest
      return (c :: cs, rest)
    else if c = '$' && rest.head? = some '\x7b' then
      (text? fuel 1 rest.tail).map fun (cs, rest) => ('$' :: '\x7b' :: cs, rest)
    else keep 0

/-- The lines before one that consists of the mark, the indentation of that line, and the text after
it. -/
def linesBefore? (mark : List Char) :
    (fuel : Nat) → List Char → Option (List (List Char) × List Char × List Char)
  | 0, _ => none
  | fuel + 1, cs =>
    let (line, rest) := cs.span (· ≠ '\n')
    let (indent, word) := line.span fun c => c = ' ' || c = '\t'
    if word = mark then some ([], indent, rest)
    else if rest.isEmpty then none
    else (linesBefore? mark fuel rest.tail).map fun (lines, indent, rest) =>
      (line :: lines, indent, rest)

/-- Lines up to a mark, after the sign that announces it. After a dash the indentation of the mark is
taken away from all lines if they have it. -/
def lines? (cs : List Char) : Option (List Char × List Char) := do
  let isIndented := cs.head? = some '-'
  let (mark, rest) := (if isIndented then cs.tail else cs).span (· ≠ '\n')
  let (lines, indent, rest) ← linesBefore? mark cs.length rest.tail
  if mark.isEmpty then none
  else if isIndented then
    let lines :=
      if lines.all fun l => indent.isPrefixOf l then lines.map (List.drop indent.length) else lines
    return (lines.flatMap (· ++ ['\n']), rest)
  else return (lines.flatMap (· ++ ['\n']) ++ indent, rest)

/-! ### Values -/

def isKeyStart (c : Char) : Bool := c.isAlpha || c = '_'

def isKeyChar (c : Char) : Bool := isKeyStart c || isDigit c || c = '-' || c = '.'

/-- The characters at the front of a text that a number may consist of. -/
def numberRun (cs : List Char) : List Char :=
  let isHex := ['0', 'x'].isPrefixOf cs || ['0', 'X'].isPrefixOf cs
  cs.takeWhile fun c => c.isAlphanum || c = '.' || c = '-' || (c = '+' && !isHex)

/-- A word for a boolean, or a number. -/
def word? (cs : List Char) : Option (Setting × List Char) :=
  if cs.head?.any isKeyStart then
    let word := cs.takeWhile isKeyChar
    if word = "true".toList then some (.flag true, cs.drop word.length)
    else if word = "false".toList then some (.flag false, cs.drop word.length)
    else none
  else
    let run := numberRun cs
    match Integer.parse (String.ofList run) with
    | .ok z => some (.int z, cs.drop run.length)
    | .error _ => (Binary64.parse? run).map fun x => (.number x, cs.drop run.length)

/-- One part of a key: a bare word or a text. -/
def keyPart? (cs : List Char) : Option (String × List Char) :=
  match cs with
  | '"' :: rest => (text? rest.length 0 rest).map fun (t, rest) => (String.ofList t, rest)
  | cs =>
    let word := cs.takeWhile isKeyChar
    if cs.head?.any isKeyStart then some (String.ofList word, cs.drop word.length) else none

/-- The parts of a key, and the sign after it. -/
def key? : (fuel : Nat) → List Char → Option (List String × List Char)
  | 0, _ => none
  | fuel + 1, cs => do
    let (part, rest) ← keyPart? cs
    match skip rest with
    | c :: rest =>
      if c = '=' || c = '\x7b' then return ([part], c :: rest)
      else
        let (parts, rest) ← key? fuel (c :: rest)
        return (part :: parts, rest)
    | [] => none

/-- Adds a value under a key; lists are put together. -/
def add (key : String) (v : Setting) (ms : List (String × Setting)) : List (String × Setting) :=
  match ms.lookup key, v with
  | some (.list old), .list new => Setting.putMember key (.list (old ++ new)) ms
  | _, v => Setting.putMember key v ms

/-- The value of a block whose key has more parts. -/
def nested : List String → Setting → Setting
  | [], v => v
  | part :: parts, v => .list [.map [(part, nested parts v)]]

/-- The members of a block up to its end, whose values are read by `value?`. Commas between them do
not count. -/
def members? (value? : List Char → Option (Setting × List Char)) :
    (fuel : Nat) → List (String × Setting) → List Char → Option (List (String × Setting) × List Char)
  | 0, _, _ => none
  | fuel + 1, found, cs =>
    match skip cs with
    | [] => some (found, [])
    | c :: rest =>
      if c = '\x7d' then some (found, c :: rest)
      else do
        match ← key? (rest.length + 1) (c :: rest) with
        | (part :: parts, sign :: rest) =>
          if sign = '=' && !parts.isEmpty then none
          else
            let (v, rest) ← value? (if sign = '=' then skip rest else sign :: rest)
            let after := skip rest
            members? value? fuel (add part (nested parts v) found)
              (if after.head? = some ',' then after.tail else after)
        | _ => none

def style : Sequence.Style := { skip, allowsLastComma := true }

/-- A value at the front of a text, and the text after it. -/
def value? : (fuel : Nat) → List Char → Option (Setting × List Char)
  | 0, _ => none
  | fuel + 1, cs =>
    match cs with
    | '"' :: rest => (text? rest.length 0 rest).map fun (t, rest) => (.text (String.ofList t), rest)
    | '<' :: '<' :: rest => (lines? rest).map fun (t, rest) => (.text (String.ofList t), rest)
    | '[' :: rest =>
      (Sequence.read? style ']' (value? fuel) rest).map fun (vs, rest) => (.list vs, rest)
    | '\x7b' :: rest => do
      let (ms, rest) ← members? (value? fuel) cs.length [] rest
      if rest.isEmpty then none else return (.list [.map ms], rest.tail)
    | cs => word? cs

/-- Whole numbers of JSON are numbers without a fraction. -/
def ofJson : Setting → Setting
  | .number (.finite x) =>
    let z := x.truncate
    if Binary64.ofDecimal (z < 0) z.natAbs 0 = .finite x then .int z else .number (.finite x)
  | .map ms => .list [.map ms]
  | v => v

/-- The settings of a file. -/
def read? (s : String) : Option Setting :=
  let cs := s.toList
  if (Space.trimStart cs).head? = some '\x7b' then
    (JsonSettings.read? s).map fun v => .map (v.members.map fun (k, v) => (k, ofJson v))
  else match members? (value? (cs.length + 1)) (cs.length + 1) [] cs with
    | some (ms, []) => some (.map ms)
    | _ => none

end FlowCheck.HclSettings
