import FlowCheck.Text.Yaml.Content

/-!
# Words of YAML

A text is cut into tokens: signs, names of anchors and tags, and texts. Indentation shows as tokens
that open and close blocks, and a key that no sign announces gets its token once the colon after it
is found. A text that breaks the rules ends in a token of its own.
-/
namespace FlowCheck.Yaml

inductive Token where
  | streamEnd
  | version
  | handle (name meaning : String)
  | documentStart
  | documentEnd
  | listStart
  | mapStart
  | blockEnd
  | bracketOpen
  | bracketClose
  | braceOpen
  | braceClose
  | item
  | comma
  | key
  | value
  | alias (name : String)
  | anchor (name : String)
  | tag (handle suffix : String)
  | text (isBare : Bool) (s : String)
  | invalid
  deriving DecidableEq, Repr

/-! ### Names -/

/-- Characters of tags beside those of names. -/
def isTagChar (c : Char) : Bool := isNameChar c || ";/?:@&=+$,.!~*'()[]%".toList.contains c

/-- Bytes that are written as a percent sign and two digits, and the rest of the text. -/
def percentBytes : List Char → Option (List UInt8 × List Char)
  | '%' :: a :: b :: rest => do
    let n ← Integer.digits? 16 [a, b]
    let (bytes, rest) ← percentBytes rest
    return (n.toUInt8 :: bytes, rest)
  | c :: rest => if c = '%' then none else some ([], c :: rest)
  | [] => some ([], [])

/-- The characters that a tag stands for once its escapes are read. -/
def unescapeTag : (fuel : Nat) → List Char → Option (List Char)
  | 0, _ => some []
  | _, [] => some []
  | fuel + 1, c :: rest => do
    if c = '%' then
      let (bytes, rest) ← percentBytes (c :: rest)
      let s ← String.fromUTF8? ⟨bytes.toArray⟩
      return s.toList ++ (← unescapeTag fuel rest)
    else return c :: (← unescapeTag fuel rest)

/-- The end of a tag, and the place after it. -/
def tagEnd? (r : Reader) : Option (List Char × Reader) := do
  let raw := r.rest.takeWhile isTagChar
  return (← unescapeTag (raw.length + 1) raw, r.skip raw.length)

/-- A handle of tags: an exclamation mark, and a name that ends in another one if there is one. -/
def tagHandle (r : Reader) : List Char × Reader :=
  let name := (r.rest.drop 1).takeWhile isNameChar
  if (r.rest.drop (name.length + 1)).head? = some '!' then
    ('!' :: name ++ ['!'], r.skip (name.length + 2))
  else ('!' :: name, r.skip (name.length + 1))

/-- A tag in angle brackets stands for itself. Others have a handle, which is a single exclamation
mark if none is written out; that mark alone is a tag as well. -/
def tag? (r : Reader) : Option (Token × Reader) := do
  let (token, r) ←
    if (r.rest.drop 1).head? = some '<' then
      let (name, r) ← tagEnd? (r.skip 2)
      if name.isEmpty || r.rest.head? ≠ some '>' then none
      else some (Token.tag "" (String.ofList name), r.next)
    else
      let (handle, r) := tagHandle r
      let (suffix, r) ← tagEnd? r
      if handle.length > 1 && handle.getLast? = some '!' then
        if suffix.isEmpty then none
        else some (.tag (String.ofList handle) (String.ofList suffix), r)
      else
        let suffix := handle.drop 1 ++ suffix
        if suffix.isEmpty then some (.tag "" "!", r)
        else some (.tag "!" (String.ofList suffix), r)
  if spaceFollows r.rest then some (token, r) else none

/-- The name of an anchor, and the place after it. -/
def anchorName? (r : Reader) : Option (String × Reader) :=
  let name := r.rest.takeWhile isNameChar
  let after := r.skip name.length
  if name.isEmpty then none
  else if spaceFollows after.rest || after.rest.head?.any "?:,]\x7d%@`".toList.contains then
    some (String.ofList name, after)
  else none

/-! ### Directives -/

/-- A number of at most two digits, and the place after it. -/
def versionPart? (r : Reader) : Option (Nat × Reader) :=
  let ds := r.rest.takeWhile Integer.isDigit
  if ds.isEmpty || 2 < ds.length then none
  else (Integer.digits? 10 ds).map fun n => (n, r.skip ds.length)

/-- The version of YAML that a document is written in. -/
def version? (r : Reader) : Option (Token × Reader) := do
  let (major, r) ← versionPart? r
  if r.rest.head? ≠ some '.' then none
  else
    let (minor, r) ← versionPart? r.next
    if major = 1 && (minor = 1 || minor = 2) then some (.version, r) else none

/-- A handle and what it stands for. -/
def handle? (r : Reader) : Option (Token × Reader) := do
  if r.rest.head? ≠ some '!' then none
  else
    let (handle, r) := tagHandle r
    if 1 < handle.length && handle.getLast? ≠ some '!' then none
    else if !r.rest.head?.any isBlank then none
    else
      let (meaning, r) ← tagEnd? (r.skipWhile isBlank)
      if meaning.isEmpty || !spaceFollows r.rest then none
      else some (.handle (String.ofList handle) (String.ofList meaning), r)

/-- A directive after its percent sign, and the place where its line ends. -/
def directive? (r : Reader) : Option (Token × Reader) := do
  let name := r.rest.takeWhile isNameChar
  let r := r.skip name.length
  if !spaceFollows r.rest then none
  else
    let value := r.skipWhile isBlank
    let (token, r) ←
      if name = "YAML".toList then version? value
      else if name = "TAG".toList then handle? value
      else none
    return (token, ← r.afterComment?)

end FlowCheck.Yaml
