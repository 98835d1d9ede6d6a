import FlowCheck.Settings.Value
import FlowCheck.Text.Space

/-!
# Settings in sections

Each line has a key and a text, with an equality sign or a colon between them. A header opens the
section that the lines after it belong to; lines before the first header belong to the section
`DEFAULT`. The points in the name of a section lead into maps. A text may take in other ones by their
keys.
-/
namespace FlowCheck.IniSettings

open Space (trim trimStart)

/-! ### Texts -/

/-- A text cut where another one stands for the first time. -/
def cutFirst? (part : List Char) : List Char → Option (List Char × List Char)
  | [] => none
  | c :: rest =>
    if part.isPrefixOf (c :: rest) then some ([], (c :: rest).drop part.length)
    else (cutFirst? part rest).map fun (before, after) => (c :: before, after)

/-- A text cut where another one stands for the last time. -/
def cutLast? (part : List Char) (cs : List Char) : Option (List Char × List Char) :=
  (cutFirst? part.reverse cs.reverse).map fun (after, before) => (before.reverse, after.reverse)

/-- A text between two marks, with none inside. -/
def isMarked (mark : Char) (cs : List Char) : Bool :=
  2 ≤ cs.length && cs.head? = some mark && cs.tail.findIdx? (· = mark) = some (cs.length - 2)

/-- Three double marks, and a single one of another kind, open a text over many lines. -/
def openMark? (cs : List Char) : Option (List Char) :=
  if 3 < cs.length && ['"', '"', '"'].isPrefixOf cs then some ['"', '"', '"']
  else if cs.head? = some '\x60' then some ['\x60']
  else none

/-- A text that goes on until its mark is closed, and the lines after it. Lines keep their ends. -/
def manyLines? (mark : List Char) (text : List Char) :
    List (List Char) → Option (List Char × List (List Char))
  | [] => none
  | line :: rest =>
    match cutLast? mark line with
    | some (before, _) => some (text ++ before, rest)
    | none => manyLines? mark (text ++ line) rest

/-- A text that goes on as long as its lines end in a backslash, and the lines after it. -/
def continued (text : List Char) : List (List Char) → List Char × List (List Char)
  | [] => (text, [])
  | line :: rest =>
    let next := trim line
    if next.isEmpty then (text, rest)
    else if next.getLast? = some '\\' then continued (text ++ next.dropLast) rest
    else (text ++ next, rest)

/-- A text on one line without its comment and its marks. -/
def plainValue (cs : List Char) : List Char :=
  let cs := trim (cs.takeWhile fun c => c ≠ '#' && c ≠ ';')
  if isMarked '\'' cs || isMarked '"' cs then cs.tail.dropLast else cs

/-- The text of a key, and the lines after it. -/
def value? (line : List Char) (rest : List (List Char)) :
    Option (List Char × List (List Char)) :=
  let cs := trimStart line
  match openMark? cs with
  | some mark =>
    let body := cs.drop mark.length
    match cutLast? mark body with
    | some (before, _) => some (before, rest)
    | none => manyLines? mark body rest
  | none =>
    let cs := trim cs
    if cs.getLast? = some '\\' then some (continued cs.dropLast rest)
    else some (plainValue cs, rest)

/-! ### Keys -/

def isSign (c : Char) : Bool := c = '=' || c = ':'

/-- The mark that a key opens. -/
def keyMark? (cs : List Char) : Option (List Char) :=
  if 6 < cs.length && ['"', '"', '"'].isPrefixOf cs then some ['"', '"', '"']
  else if cs.head? = some '"' then some ['"']
  else if cs.head? = some '\x60' then some ['\x60']
  else none

/-- A key, and the text after its sign. -/
def key? (line : List Char) : Option (String × List Char) := do
  let (key, rest) ← match keyMark? line with
    | some mark => cutFirst? mark (line.drop mark.length)
    | none => if line.head?.any isSign then none else some (line.span fun c => !isSign c)
  match rest.dropWhile fun c => !isSign c with
  | [] => none
  | _ :: rest => return (String.ofList (trim key), rest)

/-! ### Sections -/

structure Section where
  name : String
  keys : List (String × String) := []

def putKey (key value : String) : List (String × String) → List (String × String)
  | [] => [(key, value)]
  | (k, v) :: rest => if k = key then (k, value) :: rest else (k, v) :: putKey key value rest

def putInSection (name key value : String) : List Section → List Section
  | [] => [⟨name, [(key, value)]⟩]
  | s :: rest =>
    if s.name = name then { s with keys := putKey key value s.keys } :: rest
    else s :: putInSection name key value rest

/-- The section of lines before the first header. -/
def defaultName : String := "DEFAULT"

/-- The sections of a file. A key that is a single dash is replaced by its number. -/
def sections? : (fuel : Nat) → (name : String) → (count : Nat) → List Section → List (List Char) →
    Option (List Section)
  | 0, _, _, found, _ => some found
  | _, _, _, found, [] => some found
  | fuel + 1, name, count, found, line :: rest => do
    let line := trimStart line
    if line.isEmpty || line.head? = some '#' || line.head? = some ';' then
      sections? fuel name count found rest
    else if line.head? = some '[' then
      let (inner, _) ← cutLast? [']'] line.tail
      if inner.isEmpty then none else sections? fuel (String.ofList inner) 1 found rest
    else
      let (key, after) ← key? line
      let (v, rest) ← value? after rest
      let isNumbered := key = "-"
      let key := if isNumbered then "#" ++ toString count else key
      if key = "" then none
      else
        sections? fuel name (if isNumbered then count + 1 else count)
          (putInSection name key (String.ofList v) found) rest

/-! ### Expansion -/

/-- The name of the section that a section is part of. -/
def parentName? (name : String) : Option String :=
  (cutLast? ['.'] name.toList).map fun (before, _) => String.ofList before

/-- The text of a key in a section or in one that it is part of, and where it was found. -/
def findKey (sections : List Section) (key : String) :
    (fuel : Nat) → (name : String) → Option (String × String)
  | 0, _ => none
  | fuel + 1, name =>
    match ((sections.find? fun s => s.name = name).bind fun s => s.keys.lookup key) with
    | some v => some (name, v)
    | none => (parentName? name).bind (findKey sections key fuel)

/-- All places where a text stands are filled by another one. -/
def replaceAll (part filler : List Char) : (fuel : Nat) → List Char → List Char
  | 0, cs => cs
  | fuel + 1, cs =>
    match cutFirst? part cs with
    | none => cs
    | some (before, after) => before ++ filler ++ replaceAll part filler fuel after

/-- The first key between `%(` and `)s` in a text. -/
def reference? : List Char → Option (List Char)
  | [] => none
  | c :: rest =>
    let inner := rest.tail.takeWhile (· ≠ ')')
    if c = '%' && rest.head? = some '(' && !inner.isEmpty
        && [')', 's'].isPrefixOf (rest.drop (inner.length + 1)) then some inner
    else reference? rest

/-- Keys between `%(` and `)s` are replaced by their texts, first from the same section, and from the
section of lines before the first header if they are not there or stand for themselves. -/
def expanded (sections : List Section) (name key : String) : (fuel : Nat) → List Char → List Char
  | 0, cs => cs
  | fuel + 1, cs =>
    match reference? cs with
    | none => cs
    | some inner =>
      let ref := String.ofList inner
      let found := (findKey sections ref (name.length + 1) name).filter fun (place, _) =>
        place ≠ name || ref ≠ key
      match found.or (findKey sections ref 1 defaultName) with
      | none => cs
      | some (_, v) =>
        let whole := ['%', '('] ++ inner ++ [')', 's']
        expanded sections name key fuel (replaceAll whole v.toList cs.length cs)

/-- How often a text is searched for keys to replace. -/
def rounds : Nat := 99

/-- The lines of a text with their ends. -/
def linesOf (s : String) : List (List Char) :=
  let lines := (s.splitOn "\n").map String.toList
  lines.dropLast.map (· ++ ['\n']) ++ (lines.getLast?.filter (!·.isEmpty)).toList

/-- The settings of a file. -/
def read? (s : String) : Option Setting := do
  let lines := linesOf s
  let sections ← sections? (lines.length + 1) defaultName 1 [] lines
  return sections.foldl (fun v sec =>
    sec.keys.foldl (fun v (key, t) =>
      let t := expanded sections sec.name key rounds t.toList
      v.put (sec.name.splitOn "." ++ [key]) (.text (String.ofList t))) v) (.map [])

end FlowCheck.IniSettings
