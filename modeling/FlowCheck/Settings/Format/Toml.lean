import FlowCheck.Settings.Value
import FlowCheck.Text.CodePoint
import FlowCheck.Text.Decimal
import FlowCheck.Text.Sequence

/-!
# Settings in TOML

The settings are lines of keys with values. A header opens the table that the lines after it belong
to, or adds a table to a list of tables. Keys and headers may be paths. What is given twice is
refused.
-/
namespace FlowCheck.TomlSettings

open Integer (isDigit splitSign)

/-! ### Gaps -/

def isBlank (c : Char) : Bool := c = ' ' || c = '\t'

def isEnd (c : Char) : Bool := c = '\n' || c = '\r'

def skipBlanks (cs : List Char) : List Char := cs.dropWhile isBlank

/-- Passes over blanks, line ends and comments. -/
def skipGap (inComment : Bool) : List Char → List Char
  | [] => []
  | c :: rest =>
    if inComment then skipGap (c ≠ '\n') rest
    else if c = '#' then skipGap true rest
    else if isBlank c || isEnd c then skipGap false rest
    else c :: rest

/-- What follows the end of a line, on which nothing but a comment may stand. -/
def afterLine? (cs : List Char) : Option (List Char) :=
  match skipBlanks cs with
  | [] => some []
  | c :: rest =>
    if c = '#' then some (rest.dropWhile (· ≠ '\n'))
    else if isEnd c then some rest
    else none

/-! ### Texts -/

/-- What follows a backslash, and the text after it. -/
def escape? : List Char → Option (Char × List Char)
  | [] => none
  | c :: rest =>
    match c with
    | 'b' => some ('\x08', rest)
    | 't' => some ('\t', rest)
    | 'n' => some ('\n', rest)
    | 'f' => some ('\x0c', rest)
    | 'r' => some ('\r', rest)
    | 'e' => some ('\x1b', rest)
    | '"' => some ('"', rest)
    | '\\' => some ('\\', rest)
    | 'u' => CodePoint.ofHex? 4 rest
    | 'U' => CodePoint.ofHex? 8 rest
    | _ => none

/-- A character that stands for itself. -/
def isPlain (c : Char) : Bool := c = '\t' || (0x20 ≤ c.toNat && c.toNat ≠ 0x7f)

/-- A text on one line up to the closing mark, and what follows. -/
def line? (mark : Char) : (fuel : Nat) → List Char → Option (List Char × List Char)
  | 0, _ | _, [] => none
  | fuel + 1, c :: rest =>
    if c = mark then some ([], rest)
    else do
      let (c, rest) ←
        if c = '\\' && mark = '"' then escape? rest
        else if isPlain c then some (c, rest)
        else none
      let (cs, rest) ← line? mark fuel rest
      return (c :: cs, rest)

/-- What follows a backslash at the end of a line: the line breaks and blanks after it are dropped. -/
def afterLineEnd? (cs : List Char) : Option (List Char) :=
  match skipBlanks cs with
  | c :: rest => if isEnd c then some (rest.dropWhile fun c => isBlank c || isEnd c) else none
  | [] => none

/-- A text over many lines up to the three closing marks, and what follows. One or two marks more
belong to the text. -/
def lines? (mark : Char) : (fuel : Nat) → List Char → Option (List Char × List Char)
  | 0, _ | _, [] => none
  | fuel + 1, c :: rest => do
    if c = mark then
      let marks := (rest.takeWhile (· = mark)).length + 1
      if 3 ≤ marks then
        return (List.replicate (min marks 5 - 3) mark, rest.drop (min marks 5 - 1))
      else
        let (cs, rest) ← lines? mark fuel rest
        return (c :: cs, rest)
    else if c = '\\' && mark = '"' then
      match afterLineEnd? rest with
      | some rest => lines? mark fuel rest
      | none =>
        let (c, rest) ← escape? rest
        let (cs, rest) ← lines? mark fuel rest
        return (c :: cs, rest)
    else if isPlain c || isEnd c then
      let (cs, rest) ← lines? mark fuel rest
      return (c :: cs, rest)
    else none

/-- A line break right after the opening marks is dropped. -/
def dropFirstEnd : List Char → List Char
  | '\r' :: '\n' :: rest | '\n' :: rest => rest
  | cs => cs

/-- A text after its opening mark, and what follows the closing one. -/
def text? (mark : Char) (cs : List Char) : Option (String × List Char) :=
  if [mark, mark].isPrefixOf cs then
    let body := dropFirstEnd (cs.drop 2)
    (lines? mark body.length body).map fun (t, rest) => (String.ofList t, rest)
  else (line? mark cs.length cs).map fun (t, rest) => (String.ofList t, rest)

/-! ### Keys -/

def isKeyChar (c : Char) : Bool := c.isAlphanum || c = '_' || c = '-'

/-- One part of a key: a bare word, or a text on one line. -/
def keyPart? : List Char → Option (String × List Char)
  | [] => none
  | c :: rest =>
    if c = '"' || c = '\'' then
      (line? c rest.length rest).map fun (t, rest) => (String.ofList t, rest)
    else
      let word := (c :: rest).takeWhile isKeyChar
      if word.isEmpty then none else some (String.ofList word, (c :: rest).drop word.length)

/-- The parts of a key, and the text after it. -/
def key? : (fuel : Nat) → List Char → Option (List String × List Char)
  | 0, _ => none
  | fuel + 1, cs => do
    let (part, rest) ← keyPart? (skipBlanks cs)
    match skipBlanks rest with
    | '.' :: rest =>
      let (parts, rest) ← key? fuel rest
      return (part :: parts, rest)
    | rest => return ([part], rest)

/-! ### Numbers -/

/-- Digits with underscores between them, without the underscores. -/
def ungrouped? (cs : List Char) : Option (List Char) :=
  if Integer.placedFrom true .start cs then some (cs.filter (· ≠ '_')) else none

def basedInteger? (base : Nat) (cs : List Char) : Option Int := do
  let n ← Integer.digits? base (← ungrouped? cs)
  if cs.isEmpty || Integer.signedWords ≤ n then none else some n

/-- A whole number without zeros in front. -/
def integer? (cs : List Char) : Option Int := do
  let (sign, body) := splitSign cs
  let ds ← ungrouped? body
  if !Decimal.isStrict ds || !ds.all isDigit then none
  else
    let n := Decimal.natOf ds
    if sign = some '-' then if n ≤ Integer.signedWords then some (-(n : Int)) else none
    else if n < Integer.signedWords then some n else none

/-- A number with a fraction or an exponent. -/
def number? (cs : List Char) : Option Binary64 :=
  let body := (splitSign cs).2
  let bare := body.filter (· ≠ '_')
  if Integer.placedFrom false .start body && Decimal.isStrict bare && !bare.all isDigit then
    Binary64.parse? (cs.filter (· ≠ '_'))
  else none

/-! ### Times -/

/-- So many digits, and the text after them. -/
def digits? (width : Nat) (cs : List Char) : Option (Nat × List Char) :=
  let ds := cs.take width
  if ds.length = width && ds.all isDigit then some (Decimal.natOf ds, cs.drop width) else none

/-- The digits of a fraction of a second that count, and the text after all of them. -/
def fraction? : List Char → Option (List Char × List Char)
  | '.' :: rest =>
    let (ds, rest) := rest.span isDigit
    if ds.isEmpty then none else some (ds.take 9, rest)
  | cs => some ([], cs)

/-- A date and a time of day, with the digits of the fraction of a second. -/
structure Reading where
  stamp : Timestamp := { year := 0, month := 1, day := 1 }
  fraction : List Char := []

/-- A date, and the text after it. -/
def date? (cs : List Char) : Option (Timestamp × List Char) := do
  let (year, rest) ← digits? 4 cs
  let (month, rest) ← digits? 2 (← Timestamp.after? '-' rest)
  let (day, rest) ← digits? 2 (← Timestamp.after? '-' rest)
  if 1 ≤ month && month ≤ 12 && 1 ≤ day && day ≤ Timestamp.daysIn year month then
    some ({ year, month, day }, rest)
  else none

/-- A date with a time of day, and the text after it. -/
def timeOfDay? (t : Timestamp) (cs : List Char) : Option (Reading × List Char) := do
  let (hour, rest) ← digits? 2 cs
  let (minute, rest) ← digits? 2 (← Timestamp.after? ':' rest)
  let (second, rest) ← digits? 2 (← Timestamp.after? ':' rest)
  let (fraction, rest) ← fraction? rest
  if hour < 24 && minute < 60 && second < 60 then
    let nanos := Decimal.natOf ((fraction ++ List.replicate 9 '0').take 9)
    some (⟨{ t with hour, minute, second, nanos }, fraction⟩, rest)
  else none

def dateText (t : Timestamp) : String :=
  Timestamp.padded 4 t.year ++ "-" ++ Timestamp.padded 2 t.month ++ "-" ++ Timestamp.padded 2 t.day

/-- A time of day with all digits of its fraction. -/
def timeText (r : Reading) : String :=
  Timestamp.padded 2 r.stamp.hour ++ ":" ++ Timestamp.padded 2 r.stamp.minute ++ ":"
    ++ Timestamp.padded 2 r.stamp.second
    ++ if r.fraction.isEmpty then "" else "." ++ String.ofList r.fraction

/-- A time that takes up the whole text. It has a time zone only if it has a date. -/
def time? (cs : List Char) : Option Setting :=
  match date? cs with
  | none => do
    let (r, rest) ← timeOfDay? { year := 0, month := 1, day := 1 } cs
    if rest.isEmpty then some (.civil ⟨.timeOfDay, timeText r⟩) else none
  | some (t, []) => some (.civil ⟨.date, dateText t⟩)
  | some (t, sep :: rest) => do
    if sep ≠ 'T' && sep ≠ 't' && sep ≠ ' ' then none
    else
      let (r, rest) ← timeOfDay? t rest
      if rest.isEmpty then some (.civil ⟨.dateTime, dateText t ++ "T" ++ timeText r⟩)
      else
        let offset ← Timestamp.zone? (if rest = ['z'] then ['Z'] else rest)
        some (.time { r.stamp with offset })

/-! ### Values -/

def words : List (String × Setting) :=
  [("true", .flag true), ("false", .flag false)]
    ++ ["nan", "+nan", "-nan"].map (·, .number .notNumber)
    ++ ["inf", "+inf"].map (·, .number (.infinite false)) ++ [("-inf", .number (.infinite true))]

/-- What a word stands for. -/
def word? (cs : List Char) : Option Setting :=
  (words.lookup (String.ofList cs)).or <|
    match cs with
    | '0' :: 'x' :: rest => (basedInteger? 16 rest).map .long
    | '0' :: 'o' :: rest => (basedInteger? 8 rest).map .long
    | '0' :: 'b' :: rest => (basedInteger? 2 rest).map .long
    | cs => ((integer? cs).map .long).or ((time? cs).or ((number? cs).map .number))

def isWordChar (c : Char) : Bool := c.isAlphanum || "+-_.:".toList.contains c

/-- A word at the front of a text. A blank may stand between a date and a time of day. -/
def wordRun (cs : List Char) : List Char :=
  let word := cs.takeWhile isWordChar
  match date? word, cs.drop word.length with
  | some (_, []), ' ' :: d :: rest =>
    if isDigit d then word ++ ' ' :: (d :: rest).takeWhile isWordChar else word
  | _, _ => word

/-- Puts a value at a path of a table. In a list of tables the last one is meant. -/
def update (f : Setting → Option Setting) : (path : List String) → Setting → Option Setting
  | [], v => f v
  | key :: path, v =>
    let within (t : Setting) : Option Setting := do
      match t with
      | .map ms =>
        let inner ← update f path ((ms.lookup key).getD .null)
        return .map (Setting.putMember key inner ms)
      | .null => return .map [(key, ← update f path .null)]
      | _ => none
    match v with
    | .list items => do return .list (items.dropLast ++ [← within (← items.getLast?)])
    | v => within v

/-- Gives a value to a key that has none. -/
def give (value : Setting) : Setting → Option Setting
  | .null => some value
  | _ => none

/-- A table from its members. -/
def table? (members : List (List String × Setting)) : Option Setting :=
  members.foldlM (fun t m => update (give m.2) m.1 t) (.map [])

/-- A key and its value, which is read by `value?`. -/
def member? (value? : List Char → Option (Setting × List Char)) (cs : List Char) :
    Option ((List String × Setting) × List Char) := do
  let (key, rest) ← key? cs.length cs
  match rest with
  | '=' :: rest =>
    let (v, rest) ← value? (skipBlanks rest)
    return ((key, v), rest)
  | _ => none

def listStyle : Sequence.Style := { skip := skipGap false, allowsLastComma := true }

def tableStyle : Sequence.Style := { skip := skipBlanks }

/-- A value at the front of a text, and the text after it. -/
def value? : (fuel : Nat) → List Char → Option (Setting × List Char)
  | 0, _ | _, [] => none
  | fuel + 1, c :: rest =>
    if c = '"' || c = '\'' then (text? c rest).map fun (s, rest) => (.text s, rest)
    else if c = '[' then
      (Sequence.read? listStyle ']' (value? fuel) rest).map fun (vs, rest) => (.list vs, rest)
    else if c = '\x7b' then do
      let (ms, rest) ← Sequence.read? tableStyle '\x7d' (member? (value? fuel)) rest
      return (← table? ms, rest)
    else
      let word := wordRun (c :: rest)
      (word? word).map (·, (c :: rest).drop word.length)

/-! ### Documents -/

/-- A document under construction. -/
structure Document where
  root : Setting := .map []
  /-- The table that members are added to. -/
  table : List String := []
  /-- The tables that were opened by a header. -/
  opened : List (List String) := []

/-- Opens a table, which may have members already but no header. -/
def Document.openTable (d : Document) (path : List String) : Option Document := do
  if d.opened.contains path then none
  else
    let root ← update (fun v => some (if v.isNull then .map [] else v)) path d.root
    return { root, table := path, opened := path :: d.opened }

/-- Adds a table to a list. Tables inside the list can be opened anew in it. -/
def Document.openItem (d : Document) (path : List String) : Option Document := do
  let root ← update (fun v => match v with
    | .null => some (.list [.map []])
    | .list items => some (.list (items ++ [.map []]))
    | _ => none) path d.root
  return { root, table := path, opened := d.opened.filter fun p => !path.isPrefixOf p }

/-- A header or a member at the front of a text, and the text after its line. -/
def Document.line? (d : Document) : List Char → Option (Document × List Char)
  | '[' :: '[' :: rest => do
    match ← key? rest.length rest with
    | (path, ']' :: ']' :: rest) => return (← d.openItem path, ← afterLine? rest)
    | _ => none
  | '[' :: rest => do
    match ← key? rest.length rest with
    | (path, ']' :: rest) => return (← d.openTable path, ← afterLine? rest)
    | _ => none
  | cs => do
    let ((key, v), rest) ← member? (value? (cs.length + 1)) cs
    return ({ d with root := ← update (give v) (d.table ++ key) d.root }, ← afterLine? rest)

/-- The lines of a document. -/
def Document.lines? : (fuel : Nat) → Document → List Char → Option Document
  | 0, _, _ => none
  | fuel + 1, d, cs =>
    match skipGap false cs with
    | [] => some d
    | c :: rest => do
      let (d, rest) ← d.line? (c :: rest)
      Document.lines? fuel d rest

/-- The settings of a file. -/
def read? (s : String) : Option Setting :=
  ((Document.lines? (s.length + 1) {} s.toList)).map Document.root

end FlowCheck.TomlSettings
