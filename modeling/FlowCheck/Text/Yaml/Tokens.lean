import FlowCheck.Text.Yaml.Token

/-!
# Cutting a YAML text into tokens

`tokens` reads a text from left to right. It keeps the indentations of the open blocks and, for each
open bracket, the place of a word that may turn out to be a key.
-/
namespace FlowCheck.Yaml

/-- A word that is a key if a colon follows in the same line. -/
structure PossibleKey where
  /-- The number of tokens before the word. -/
  number : Nat
  line : Nat
  col : Nat
  /-- The word stands where only a key can stand. -/
  isRequired : Bool

/-- A text that is cut into tokens as far as the reader. -/
structure Scanner where
  reader : Reader
  tokens : Array Token := #[]
  /-- The indentations of the open blocks, the innermost first. -/
  indents : List Nat := []
  /-- Possible keys, one for each open bracket and one outside them, the innermost first. -/
  keys : List (Option PossibleKey) := [none]
  /-- A key may start here. -/
  keyAllowed : Bool := true

namespace Scanner

def inFlow (s : Scanner) : Bool := 1 < s.keys.length

def push (s : Scanner) (t : Token) : Scanner := { s with tokens := s.tokens.push t }

def skip (s : Scanner) (n : Nat) : Scanner := { s with reader := s.reader.skip n }

def allowKey (s : Scanner) (allowed : Bool) : Scanner := { s with keyAllowed := allowed }

/-! ### Keys -/

/-- Gives up the possible key of the innermost bracket. -/
def dropKey (s : Scanner) : Option Scanner :=
  if s.keys.head?.join.any PossibleKey.isRequired then none
  else some { s with keys := none :: s.keys.tail }

/-- Remembers the next word as a possible key, if a key may start here. -/
def saveKey (s : Scanner) : Option Scanner :=
  if !s.keyAllowed then some s
  else do
    let s ← s.dropKey
    let r := s.reader
    let key : PossibleKey :=
      { number := s.tokens.size, line := r.line, col := r.col
        isRequired := !s.inFlow && s.indents.head? = some r.col }
    return { s with keys := some key :: s.keys.tail }

/-- A key ends in the line where it starts, and not too far from there. -/
def reaches (s : Scanner) (k : PossibleKey) : Bool :=
  k.line = s.reader.line && s.reader.col ≤ k.col + 1024

/-! ### Blocks -/

/-- Opens a block at a column, unless one is open there; `number` is the place of its token. -/
def openBlock (s : Scanner) (col number : Nat) (t : Token) : Scanner :=
  if s.inFlow || !s.indents.head?.all (· < col) then s
  else { s with indents := col :: s.indents, tokens := s.tokens.insertIdxIfInBounds number t }

/-- Closes the blocks that `isInner` tells to be inside. -/
def closeBlocks (s : Scanner) (isInner : Nat → Bool) : Scanner :=
  if s.inFlow then s
  else
    let ended := s.indents.takeWhile isInner
    { s with
      indents := s.indents.drop ended.length
      tokens := s.tokens ++ List.replicate ended.length Token.blockEnd }

/-! ### Between tokens -/

/-- The place after comments: the one that starts here, and those in lines of their own below. -/
def afterComments : (fuel : Nat) → Reader → Reader
  | 0, r => r
  | fuel + 1, r =>
    if r.rest.head? = some '#' then
      let r := r.lineEnd
      let below := r.skipWhile fun c => isBlank c || c = '\n'
      if below.rest.head? = some '#' then afterComments fuel below else r
    else r

/-- Goes on to the next token. Tabs do not count as blanks where a key may start in a block. -/
def toToken : (fuel : Nat) → Scanner → Scanner
  | 0, s => s
  | fuel + 1, s =>
    let r := s.reader
    let r := if r.col = 0 && r.rest.head? = some '\ufeff' then r.next else r
    let r := r.skipWhile fun c => c = ' ' || (c = '\t' && (s.inFlow || !s.keyAllowed))
    let r := afterComments r.rest.length r
    if r.rest.head?.any isBreak then
      toToken fuel { s with reader := r.next, keyAllowed := s.keyAllowed || !s.inFlow }
    else { s with reader := r }

/-! ### Tokens -/

/-- The end of the text closes everything that is open. -/
def scanEnd (s : Scanner) : Option Scanner := do
  let s ← (s.closeBlocks fun _ => true).dropKey
  return (s.allowKey false).push .streamEnd

def scanDirective (s : Scanner) : Option Scanner := do
  let s ← (s.closeBlocks fun _ => true).dropKey
  let (token, r) ← directive? s.reader.next
  return { s.push token with reader := r.next, keyAllowed := false }

def scanMarker (s : Scanner) (t : Token) : Option Scanner := do
  let s ← (s.closeBlocks fun _ => true).dropKey
  return ((s.skip 3).allowKey false).push t

def scanOpen (s : Scanner) (t : Token) : Option Scanner := do
  let s ← s.saveKey
  return { (s.skip 1).push t with keys := none :: s.keys, keyAllowed := true }

def scanClose (s : Scanner) (t : Token) : Option Scanner := do
  let s ← s.dropKey
  let keys := if s.inFlow then s.keys.tail else s.keys
  return { (s.skip 1).push t with keys, keyAllowed := false }

def scanComma (s : Scanner) : Option Scanner := do
  let s ← s.dropKey
  return ((s.skip 1).allowKey true).push .comma

/-- An item of a list. Inside brackets the dash is left for the parser to refuse. -/
def scanItem (s : Scanner) : Option Scanner := do
  if !s.inFlow && !s.keyAllowed then none
  else
    let s ← (s.openBlock s.reader.col s.tokens.size .listStart).dropKey
    return ((s.skip 1).allowKey true).push .item

/-- A key that a question mark announces. -/
def scanKey (s : Scanner) : Option Scanner := do
  if !s.inFlow && !s.keyAllowed then none
  else
    let s ← (s.openBlock s.reader.col s.tokens.size .mapStart).dropKey
    return ((s.skip 1).allowKey (!s.inFlow)).push .key

/-- A colon makes a key of the possible key before it. Without one it belongs to a key that a
question mark announced, or to an empty key. -/
def scanValue (s : Scanner) : Option Scanner :=
  match s.keys.head?.join.filter s.reaches with
  | some k =>
    let s := { s with tokens := s.tokens.insertIdxIfInBounds k.number .key }
    let s := s.openBlock k.col k.number .mapStart
    some { (s.skip 1).push .value with keys := none :: s.keys.tail, keyAllowed := false }
  | none =>
    if s.keys.head?.join.any PossibleKey.isRequired then none
    else if !s.inFlow && !s.keyAllowed then none
    else
      let s := { s with keys := none :: s.keys.tail }
      let s := s.openBlock s.reader.col s.tokens.size .mapStart
      some (((s.skip 1).allowKey (!s.inFlow)).push .value)

/-- A name after a sign. -/
def scanName (s : Scanner) (make : String → Token) : Option Scanner := do
  let s ← s.saveKey
  let (name, r) ← anchorName? s.reader.next
  return { s.push (make name) with reader := r, keyAllowed := false }

def scanTag (s : Scanner) : Option Scanner := do
  let s ← s.saveKey
  let (token, r) ← tag? s.reader
  return { s.push token with reader := r, keyAllowed := false }

def scanBlock (s : Scanner) (isLiteral : Bool) : Option Scanner := do
  let s ← s.dropKey
  let (text, r) ← block? isLiteral s.indents.head? s.reader.next
  return { s.push (.text false (String.ofList text)) with reader := r, keyAllowed := true }

def scanQuoted (s : Scanner) (mark : Char) : Option Scanner := do
  let s ← s.saveKey
  let (text, r) ← quoted? mark s.reader.next
  return { s.push (.text false (String.ofList text)) with reader := r, keyAllowed := false }

def scanBare (s : Scanner) : Option Scanner := do
  let s ← s.saveKey
  let bare ← bare? s.inFlow (s.indents.head?.elim 0 (· + 1)) s.reader
  return { s.push (.text true (String.ofList bare.text)) with
    reader := bare.after, keyAllowed := bare.isBroken }

/-- A bare text may start with this character. -/
def startsBare (inFlow : Bool) (c : Char) (rest : List Char) : Bool :=
  !(isSpace c || "-?:,[]\x7b\x7d#&*!|>'\"%@`".toList.contains c)
    || (c = '-' && !rest.head?.any isBlank)
    || (!inFlow && (c = '?' || c = ':') && !spaceFollows rest)

/-- Reads the next token. -/
def scanToken (s : Scanner) : Option Scanner :=
  let s := s.toToken (s.reader.rest.length + 1)
  let s := s.closeBlocks (s.reader.col < ·)
  match s.reader.rest with
  | [] => s.scanEnd
  | c :: rest =>
    if s.reader.col = 0 && c = '%' then s.scanDirective
    else if s.reader.atMarker then
      s.scanMarker (if c = '-' then .documentStart else .documentEnd)
    else if c = '[' then s.scanOpen .bracketOpen
    else if c = '\x7b' then s.scanOpen .braceOpen
    else if c = ']' then s.scanClose .bracketClose
    else if c = '\x7d' then s.scanClose .braceClose
    else if c = ',' then s.scanComma
    else if c = '-' && spaceFollows rest then s.scanItem
    else if c = '?' && (s.inFlow || spaceFollows rest) then s.scanKey
    else if c = ':' && (s.inFlow || spaceFollows rest) then s.scanValue
    else if c = '*' then s.scanName .alias
    else if c = '&' then s.scanName .anchor
    else if c = '!' then s.scanTag
    else if c = '|' && !s.inFlow then s.scanBlock true
    else if c = '>' && !s.inFlow then s.scanBlock false
    else if c = '\'' || c = '"' then s.scanQuoted c
    else if startsBare s.inFlow c rest then s.scanBare
    else none

/-- Reads tokens up to the end of the text, or as far as it keeps the rules. -/
def run : (fuel : Nat) → Scanner → Array Token
  | 0, s => s.tokens.push .invalid
  | fuel + 1, s =>
    match s.scanToken with
    | none => s.tokens.push .invalid
    | some s => if s.tokens.back? = some .streamEnd then s.tokens else run fuel s

end Scanner

/-- The tokens of a text, without a mark of its encoding. -/
def tokens (s : String) : List Token :=
  let cs := match s.toList with
    | c :: rest => if c = '\ufeff' then rest else c :: rest
    | [] => []
  if cs.all isAllowed then
    let cs := alignBreaks cs
    ((Scanner.run (cs.length + 1) { reader := { rest := cs } })).toList
  else [.invalid]

end FlowCheck.Yaml
