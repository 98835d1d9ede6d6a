import FlowCheck.Text.Yaml.Tokens

/-!
# Documents of YAML

A document is a tree of texts, lists and maps. Every node may have a tag, which says what its text
stands for, and an anchor, by which it can be put in other places of the document. `Node.read?` reads
the first document of a text.
-/
namespace FlowCheck.Yaml

/-- What a text stands for. -/
inductive Tag where
  | null
  | bool
  | int
  | float
  | timestamp
  | str
  | binary
  | merge
  | other (name : String)
  deriving DecidableEq, Repr

/-- What the names of the standard tags start with. -/
def standardStart : String := "tag:yaml.org,2002:"

/-- The standard tags by the ends of their names. -/
def standardTags : List (String × Tag) :=
  [("null", .null), ("bool", .bool), ("int", .int), ("float", .float), ("timestamp", .timestamp),
    ("str", .str), ("binary", .binary), ("merge", .merge)]

/-- A text without what it starts with. -/
def afterStart? (start s : String) : Option String :=
  if start.toList.isPrefixOf s.toList then some (String.ofList (s.toList.drop start.length))
  else none

/-- Standard tags are known by their full names and by their short ones. -/
def Tag.ofName (name : String) : Tag :=
  (((afterStart? standardStart name).or (afterStart? "!!" name)).bind fun rest =>
    List.lookup rest standardTags).getD (.other name)

/-- A node of a document. A text without a tag stands for whatever it spells. -/
inductive Node where
  | text (tag : Option Tag) (s : String)
  | list (items : List Node)
  | map (members : List (Node × Node))
  | alias (name : String) (target : Node)

namespace Node

instance : Inhabited Node := ⟨text none ""⟩

/-- A node that is left out. -/
def empty : Node := text none ""

/-- A text with its tag as it is written. A single exclamation mark is no tag at all. Without a tag,
a text that is not bare is a text and nothing else. -/
def ofText (tag : Option String) (isBare : Bool) (s : String) : Node :=
  match tag.filter fun t => t ≠ "!" with
  | some t => text (some (.ofName t)) s
  | none => text (if !isBare then some .str else if s = "<<" then some .merge else none) s

end Node

/-- Nodes are composed from the tokens that are left. Anchors of nodes that are not complete have no
node yet. -/
structure Composer where
  tokens : List Token
  anchors : List (String × Option Node) := []
  handles : List (String × String) := []

abbrev Compose := StateT Composer Option

namespace Compose

/-- The next token. The tokens are read two ahead, so that a text which breaks the rules there is
refused here. -/
def peek : Compose Token := do
  let tokens := (← get).tokens
  if (tokens.take 3).contains .invalid then failure else return tokens.headD .streamEnd

def skip : Compose Unit := modify fun c => { c with tokens := c.tokens.tail }

/-- The token after the next. -/
def skipPeek : Compose Token := do
  skip
  peek

def require (t : Token) : Compose Unit := do
  if (← peek) = t then skip else failure

/-! ### Tags and anchors -/

def tagName (handle suffix : String) : Compose String := do
  if handle = "" then return suffix
  else match (← get).handles.lookup handle with
    | some meaning => return meaning ++ suffix
    | none => failure

/-- A node gets a name that stands for it in the rest of the document. -/
def bind (anchor : Option String) (n : Option Node) : Compose Unit :=
  match anchor with
  | some name => modify fun c => { c with anchors := (name, n) :: c.anchors }
  | none => return

/-- The innermost node that was begun under a name. -/
def completed (name : String) (n : Node) :
    List (String × Option Node) → List (String × Option Node)
  | [] => []
  | (a, some m) :: rest => (a, some m) :: completed name n rest
  | (a, none) :: rest => if a = name then (a, some n) :: rest else (a, none) :: completed name n rest

def complete (anchor : Option String) (n : Node) : Compose Node := do
  if let some name := anchor then
    modify fun c => { c with anchors := completed name n c.anchors }
  return n

/-- A node that was completed under a name. -/
def aliased (name : String) : Compose Node := do
  match (← get).anchors.lookup name with
  | some (some n) => return .alias name n
  | _ => failure

/-- The anchor and the tag in front of a node, in either order. -/
def properties : Compose (Option String × Option String) := do
  match ← peek with
  | .anchor name =>
    match ← skipPeek with
    | .tag handle suffix =>
      skip
      return (some name, some (← tagName handle suffix))
    | _ => return (some name, none)
  | .tag handle suffix =>
    let tag ← tagName handle suffix
    match ← skipPeek with
    | .anchor name =>
      skip
      return (some name, some tag)
    | _ => return (none, some tag)
  | _ => return (none, none)

/-! ### Nodes -/

mutual

/-- A node. Blocks are allowed outside brackets only, and a list that is not indented only as the
value of a key. -/
def node (block flat : Bool) : (fuel : Nat) → Compose Node
  | 0 => failure
  | fuel + 1 => do
    if let .alias name ← peek then
      skip
      aliased name
    else
      let (anchor, tag) ← properties
      match ← peek with
      | .text isBare s =>
        skip
        let n := Node.ofText tag isBare s
        bind anchor (some n)
        return n
      | .bracketOpen =>
        bind anchor none
        skip
        complete anchor (.list (← itemsInside true fuel))
      | .braceOpen =>
        bind anchor none
        skip
        complete anchor (.map (← membersInside true fuel))
      | .item =>
        if flat then
          bind anchor none
          complete anchor (.list (← flatItems fuel))
        else left anchor tag
      | .listStart =>
        if block then
          bind anchor none
          skip
          complete anchor (.list (← items fuel))
        else left anchor tag
      | .mapStart =>
        if block then
          bind anchor none
          skip
          complete anchor (.map (← members fuel))
        else left anchor tag
      | _ => left anchor tag

/-- A node of which there is nothing but an anchor or a tag. -/
def left (anchor tag : Option String) : Compose Node :=
  if anchor.isNone && tag.isNone then failure
  else do
    let n := Node.ofText tag true ""
    bind anchor (some n)
    return n

/-- A node, or an empty one if one of some tokens comes next. -/
def nodeUnless (stops : List Token) (block flat : Bool) : (fuel : Nat) → Compose Node
  | 0 => failure
  | fuel + 1 => do
    if stops.contains (← peek) then return .empty else node block flat fuel

/-- The items of an indented list. -/
def items : (fuel : Nat) → Compose (List Node)
  | 0 => failure
  | fuel + 1 => do
    match ← peek with
    | .item =>
      skip
      let n ← nodeUnless [.item, .blockEnd] true false fuel
      return n :: (← items fuel)
    | .blockEnd =>
      skip
      return []
    | _ => failure

/-- The items of a list that is indented no more than the key it belongs to. -/
def flatItems : (fuel : Nat) → Compose (List Node)
  | 0 => failure
  | fuel + 1 => do
    if (← peek) = .item then
      skip
      let n ← nodeUnless [.item, .key, .value, .blockEnd] true false fuel
      return n :: (← flatItems fuel)
    else return []

/-- The members of an indented map. -/
def members : (fuel : Nat) → Compose (List (Node × Node))
  | 0 => failure
  | fuel + 1 => do
    match ← peek with
    | .key =>
      skip
      let k ← nodeUnless [.key, .value, .blockEnd] true true fuel
      let v ←
        if (← peek) = .value then
          skip
          nodeUnless [.key, .value, .blockEnd] true true fuel
        else pure .empty
      return (k, v) :: (← members fuel)
    | .blockEnd =>
      skip
      return []
    | _ => failure

/-- The items of a list in brackets; a single key and its value may stand for a map. -/
def itemsInside (first : Bool) : (fuel : Nat) → Compose (List Node)
  | 0 => failure
  | fuel + 1 => do
    if (← peek) = .bracketClose then
      skip
      return []
    else
      if !first then require .comma
      match ← peek with
      | .bracketClose =>
        skip
        return []
      | .key =>
        skip
        let n ← pair fuel
        return n :: (← itemsInside false fuel)
      | _ =>
        let n ← node false false fuel
        return n :: (← itemsInside false fuel)

/-- A key and its value in a list in brackets. -/
def pair : (fuel : Nat) → Compose Node
  | 0 => failure
  | fuel + 1 => do
    let t ← peek
    let k ←
      if [.value, .comma, .bracketClose].contains t then
        skip
        pure .empty
      else node false false fuel
    let v ←
      if (← peek) = .value then
        skip
        nodeUnless [.comma, .bracketClose] false false fuel
      else pure .empty
    return .map [(k, v)]

/-- The members of a map in braces. -/
def membersInside (first : Bool) : (fuel : Nat) → Compose (List (Node × Node))
  | 0 => failure
  | fuel + 1 => do
    if (← peek) = .braceClose then
      skip
      return []
    else
      if !first then require .comma
      match ← peek with
      | .braceClose =>
        skip
        return []
      | .key =>
        skip
        let k ← nodeUnless [.value, .comma, .braceClose] false false fuel
        let v ←
          if (← peek) = .value then
            skip
            nodeUnless [.comma, .braceClose] false false fuel
          else pure .empty
        return (k, v) :: (← membersInside false fuel)
      | _ =>
        let k ← node false false fuel
        return (k, .empty) :: (← membersInside false fuel)

end

/-! ### Documents -/

/-- The directives before a document. The version and each handle are given once at most. -/
def directives : (fuel : Nat) → (versioned : Bool) → Compose Unit
  | 0, _ => failure
  | fuel + 1, versioned => do
    match ← peek with
    | .version =>
      if versioned then failure
      skip
      directives fuel true
    | .handle name meaning =>
      if ((← get).handles.lookup name).isSome then failure
      skip
      modify fun c => { c with handles := c.handles ++ [(name, meaning)] }
      directives fuel versioned
    | _ => return

/-- The handles that need no directive. -/
def standardHandles : List (String × String) := [("!", "!"), ("!!", standardStart)]

/-- The first document, if there is one. What follows it does not matter. -/
def document (fuel : Nat) : Compose (Option Node) := do
  let isBegun ← match ← peek with
    | .streamEnd => return none
    | .version | .handle _ _ | .documentStart => do
      directives fuel false
      require .documentStart
      pure true
    | _ => pure false
  modify fun c => { c with handles := c.handles ++ standardHandles }
  let t ← peek
  let isEmpty := isBegun && match t with
    | .version | .handle _ _ | .documentStart | .documentEnd | .streamEnd => true
    | _ => false
  let n ← if isEmpty then pure .empty else node true false fuel
  let _ ← peek
  return some n

end Compose

/-- The first document of a text, or nothing for a text without documents. The outer option tells
whether the text keeps the rules. -/
def Node.read? (s : String) : Option (Option Node) :=
  let ts := tokens s
  ((Compose.document (4 * ts.length + 4)).run { tokens := ts }).map Prod.fst

end FlowCheck.Yaml
