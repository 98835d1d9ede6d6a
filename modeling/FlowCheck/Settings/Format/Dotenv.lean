import FlowCheck.Settings.Value
import FlowCheck.Text.Space

/-!
# Settings in lists of variables

Each line gives a value to a variable, with an equality sign or a colon between them. Values may
stand in quotation marks, over many lines as well. Except between single marks, they may take in
variables of the environment and variables given before.
-/
namespace FlowCheck.DotenvSettings

open Space (isSpace trim)

/-- Blanks and line ends that may stand between the parts of a line. -/
def isGap (c : Char) : Bool := c = ' ' || c = '\t' || c = '\n' || c = '\x0c' || c = '\r'

def isNameChar (c : Char) : Bool := c.isAlphanum || c = '_' || c = '.'

/-! ### Lines -/

/-- The place of the last mark in a text. -/
def lastIndex? (mark : Char) (cs : List Char) : Option Nat :=
  let after := (cs.reverse.takeWhile (· ≠ mark)).length
  if after < cs.length then some (cs.length - 1 - after) else none

/-- The mark that a value opens without closing it on its line. -/
def openMark? (line : List Char) : Option Char := do
  let sign ← (line.findIdx? (· = '=')).or (line.findIdx? (· = ':'))
  let value := trim (line.drop (sign + 1))
  let mark ← value.head?
  if sign = 0 || (mark ≠ '"' && mark ≠ '\'') then none
  else match lastIndex? mark (trim value.tail) with
    | none => some mark
    | some i => if value.getD i ' ' = '\\' then some mark else none

/-- A mark closes a value if no backslash stands before it. -/
def closes (mark : Char) (line : List Char) : Bool :=
  match lastIndex? mark line with
  | none => false
  | some 0 => true
  | some (i + 1) => line.getD i ' ' ≠ '\\'

/-- The line that a value goes on to, until its mark is closed. -/
def joinLines (mark : Char) (line : List Char) :
    List (List Char) → Option (List Char × List (List Char))
  | [] => none
  | next :: rest =>
    let line := line ++ '\n' :: next
    if closes mark next then some (line, rest) else joinLines mark line rest

/-- The lines that give values; empty lines and comments are left out. -/
def statements? : (fuel : Nat) → List (List Char) → Option (List (List Char))
  | 0, _ | _, [] => some []
  | fuel + 1, line :: rest =>
    let line := trim line
    if line.isEmpty || line.head? = some '#' then statements? fuel rest
    else match openMark? line with
      | none => (statements? fuel rest).map (line :: ·)
      | some mark => do
        let (line, rest) ← joinLines mark line rest
        return line :: (← statements? fuel rest)

/-! ### Statements -/

/-- Nothing but a comment stands at the end of a line. -/
def isTail (cs : List Char) : Bool :=
  match cs.dropWhile isGap with
  | [] => true
  | c :: rest => c = '#' && !rest.contains '\n'

/-- A value between marks, which are the first of the text and the last one that only a comment
follows. -/
def markedValue? (mark : Char) (cs : List Char) : Option (List Char) :=
  ((List.range cs.length).reverse.find? fun i =>
    0 < i && cs.getD i ' ' = mark && isTail (cs.drop (i + 1))).map fun i => cs.take (i + 1)

/-- A value without marks. -/
def bareValue? (cs : List Char) : Option (List Char) :=
  let run := cs.takeWhile fun c => c ≠ '#' && c ≠ '\n'
  if isTail (cs.drop run.length) then some run else none

/-- A value at the front of a text after which only a comment stands. -/
def value? (cs : List Char) : Option (List Char) :=
  let marked := match cs.head? with
    | some c => if c = '"' || c = '\'' then markedValue? c cs else none
    | none => none
  marked.or (bareValue? cs)

/-- A value after an equality sign, with gaps around it, or after a colon and a gap. -/
def afterName? (cs : List Char) : Option (List Char) :=
  let afterGap := cs.dropWhile isGap
  match afterGap.head?, cs with
  | some '=', _ => value? (afterGap.tail.dropWhile isGap)
  | _, ':' :: c :: rest => if isGap c then value? rest else none
  | _, _ => none

/-- A name and its value. -/
def pair? (cs : List Char) : Option (List Char × List Char) :=
  let name := cs.takeWhile isNameChar
  if name.isEmpty then none else (afterName? (cs.drop name.length)).map (name, ·)

/-- A name and its value, after the word `export` if it is there. -/
def statement? (line : List Char) : Option (List Char × List Char) :=
  let cs := line.dropWhile isGap
  let word := "export".toList
  let rest := cs.drop word.length
  let exported :=
    if word.isPrefixOf cs && rest.head?.any isGap then pair? (rest.dropWhile isGap) else none
  exported.or (pair? cs)

/-! ### Values -/

/-- Replaces the letters for line ends after a backslash. -/
def lineEnds : List Char → List Char
  | '\\' :: 'n' :: rest => '\n' :: lineEnds rest
  | '\\' :: 'r' :: rest => '\r' :: lineEnds rest
  | c :: rest => c :: lineEnds rest
  | [] => []

/-- Drops backslashes, except before a dollar sign. -/
def unescaped : List Char → List Char
  | '\\' :: c :: rest => if c = '$' then '\\' :: c :: unescaped rest else c :: unescaped rest
  | c :: rest => c :: unescaped rest
  | [] => []

def isVariableChar (c : Char) : Bool := c.isUpper || c.isDigit || c = '_'

/-- What follows a dollar sign: the name of a variable, and how many characters it takes up with its
brackets. -/
def reference (cs : List Char) : List Char × Nat :=
  let opened := if cs.head? = some '\x7b' then 1 else 0
  let name := (cs.drop opened).takeWhile isVariableChar
  let size := opened + name.length
  (name, size + if (cs.drop size).head? = some '\x7d' then 1 else 0)

/-- Replaces variables by their values. After a backslash a variable stands for itself. -/
def expanded (find : String → String) : (fuel : Nat) → List Char → List Char
  | fuel + 1, '\\' :: '$' :: rest =>
    let size := (reference rest).2
    '$' :: rest.take size ++ expanded find fuel (rest.drop size)
  | fuel + 1, '$' :: rest =>
    let (name, size) := reference rest
    (if name.isEmpty then '$' :: rest.take size else (find (String.ofList name)).toList)
      ++ expanded find fuel (rest.drop size)
  | fuel + 1, c :: rest => c :: expanded find fuel rest
  | _, cs => cs

/-- The value stands between two marks. -/
def isMarked (mark : Char) (cs : List Char) : Bool :=
  2 ≤ cs.length && cs.head? = some mark && cs.getLast? = some mark

/-- What a value stands for. -/
def valueOf (find : String → String) (cs : List Char) : List Char :=
  let cs := trim cs
  if isMarked '\'' cs then cs.tail.dropLast
  else
    let cs := if isMarked '"' cs then unescaped (lineEnds cs.tail.dropLast) else cs
    expanded find cs.length cs

/-- A variable of the environment, or else one that was given before. -/
def find (env : String → Option String) (given : List (String × Setting)) (name : String) : String :=
  (env name).getD (((given.lookup name).map Setting.toText).getD "")

/-- The settings of a file. -/
def read? (env : String → Option String) (s : String) : Option Setting := do
  let lines := (s.splitOn "\n").map String.toList
  let statements ← statements? lines.length lines
  let given ← statements.foldlM (fun given line => do
    let (name, value) ← statement? line
    let v := String.ofList (valueOf (find env given) value)
    return Setting.putMember (String.ofList name) (.text v) given) []
  return .map given

end FlowCheck.DotenvSettings
