import FlowCheck.Settings.Value
import FlowCheck.Text.CodePoint

/-!
# Settings in property lists

Each line has a key and a text, with an equality sign, a colon or only blanks between them. The
points of a key lead into maps. A text may take in other ones by their keys.
-/
namespace FlowCheck.PropertySettings

def isBlank (c : Char) : Bool := c = ' ' || c = '\x0c' || c = '\t'

def isEnd (c : Char) : Bool := c = '\n' || c = '\r'

/-! ### Lines -/

/-- What follows a backslash, and the text after it. Characters without a meaning stand for
themselves. -/
def escape? : List Char → Option (Char × List Char)
  | [] => none
  | c :: rest =>
    match c with
    | 'f' => some ('\x0c', rest)
    | 'n' => some ('\n', rest)
    | 'r' => some ('\r', rest)
    | 't' => some ('\t', rest)
    | 'u' => CodePoint.ofHex? 4 rest
    | c => some (c, rest)

def endsKey (c : Char) : Bool := isBlank c || isEnd c || c = ':' || c = '='

/-- A key, and the text from the sign that ends it. -/
def key? : (fuel : Nat) → List Char → Option (List Char × List Char)
  | 0, cs => some ([], cs)
  | _, [] => some ([], [])
  | fuel + 1, c :: rest =>
    if endsKey c then some ([], c :: rest)
    else do
      let (c, rest) ← if c = '\\' then escape? rest else some (c, rest)
      let (cs, rest) ← key? fuel rest
      return (c :: cs, rest)

/-- The text between a key and its value is passed over. -/
def skipSign (cs : List Char) : List Char :=
  match cs.dropWhile isBlank with
  | c :: rest => if c = ':' || c = '=' then rest.dropWhile isBlank else c :: rest
  | [] => []

/-- A value up to the end of its line, and the text after it. A line that ends in a backslash goes
on in the next one, whose first blanks do not count. -/
def value? : (fuel : Nat) → List Char → Option (List Char × List Char)
  | 0, cs => some ([], cs)
  | _, [] => some ([], [])
  | fuel + 1, c :: rest =>
    if isEnd c then some ([], rest)
    else if c = '\\' && rest.head?.any isEnd then value? fuel (rest.tail.dropWhile isBlank)
    else do
      let (c, rest) ← if c = '\\' then escape? rest else some (c, rest)
      let (cs, rest) ← value? fuel rest
      return (c :: cs, rest)

/-- The keys and their texts. Lines that start with a number sign or an exclamation mark are
comments. -/
def lines? : (fuel : Nat) → List Char → Option (List (String × String))
  | 0, _ => none
  | fuel + 1, cs =>
    match cs.dropWhile fun c => isBlank c || isEnd c with
    | [] => some []
    | c :: rest =>
      if c = '#' || c = '!' then lines? fuel (rest.dropWhile fun c => !isEnd c)
      else do
        let (key, rest) ← key? (rest.length + 1) (c :: rest)
        if key.isEmpty then none
        else
          let value := skipSign rest
          let (v, rest) ← value? value.length value
          return (String.ofList key, String.ofList v) :: (← lines? fuel rest)

/-! ### Expansion -/

/-- A text cut at the first place where another one stands. -/
def cut? (part : List Char) : List Char → Option (List Char × List Char)
  | [] => if part.isEmpty then some ([], []) else none
  | c :: rest =>
    if part.isPrefixOf (c :: rest) then some ([], (c :: rest).drop part.length)
    else (cut? part rest).map fun (before, after) => (c :: before, after)

/-- Replaces keys between `${` and `}` by their texts, which are expanded as well. A key that takes
itself in is refused. There may be as many replacements in a row as there is fuel. -/
def expand? (find : String → List Char) (depth : Nat) (within : List String) :
    (fuel : Nat) → List Char → Option (List Char)
  | 0, _ => none
  | fuel + 1, cs =>
    match cut? ['$', '\x7b'] cs with
    | none => some cs
    | some (before, rest) => do
      let (key, after) ← cut? ['\x7d'] rest
      let key := String.ofList key
      if depth < within.length || within.contains key then none
      else
        let v ← expand? find depth (key :: within) fuel (find key)
        expand? find depth within fuel (before ++ v ++ after)

/-- How deep texts may take in other ones. -/
def depth : Nat := 64

/-- The text of a key, or else the variable of that name. -/
def find (env : String → Option String) (lines : List (String × String)) (key : String) :
    List Char :=
  (((lines.reverse.lookup key).or (env key)).getD "").toList

/-- The settings of a file. Of texts with the same key the last one counts. -/
def read? (env : String → Option String) (s : String) : Option Setting := do
  let lines ← lines? (s.length + 1) s.toList
  lines.foldlM (fun v (key, _) => do
    let t ← expand? (find env lines) depth [key] (s.length + 1) (find env lines key)
    return v.put (key.splitOn ".") (.text (String.ofList t))) (.map [])

end FlowCheck.PropertySettings
