import FlowCheck.Settings.Format.Spelling

/-!
# Settings in YAML

The settings are a document that is a map or nothing at all. Keys of maps stand once. A map
may take over members of other maps under the key `<<`; members of its own win over those, and
earlier ones over later ones.
-/
namespace FlowCheck.YamlSettings

open Yaml (Node)

/-! ### Keys -/

/-- The key under which other maps are taken over. -/
def isMerge : Node → Bool
  | .text tag s => s = "<<" && tag = some .merge
  | _ => false

/-- Two keys are written alike. -/
def sameKey : Node → Node → Bool
  | .text _ s, .text _ t => s = t
  | .alias a _, .alias b _ => a = b
  | .list _, .list _ => true
  | .map _, .map _ => true
  | _, _ => false

def hasRepeats : List (Node × Node) → Bool
  | [] => false
  | (k, _) :: rest => rest.any (fun m => sameKey k m.1) || hasRepeats rest

/-- The key is a text, or takes over other maps. -/
def isTextKey : Node → Bool
  | .text tag s =>
    match tag with
    | some .str | some .merge => true
    | some _ => false
    | none => match Setting.spelled true s with
      | .text _ => true
      | _ => false
  | .alias _ n => isTextKey n
  | _ => false

/-- The value of a key, which is a single one. -/
def keyValue? : Node → Option Setting
  | .text tag s => Setting.ofTagged? tag s
  | .alias _ n => keyValue? n
  | _ => none

/-- A key as a text, just as it is written. There is none for a key that is null. -/
def keyText? : Node → Option (Option String)
  | .text tag s => do
    match ← Setting.ofTagged? tag s with
    | .null => return none
    | .text t => return some t
    | _ => return some s
  | .alias _ n => keyText? n
  | _ => none

/-- Two keys have the same value. -/
def equalKeys : Setting → Setting → Bool
  | .null, .null => true
  | .flag a, .flag b => a = b
  | .int a, .int b => a = b
  | .number a, .number b => a.equals b
  | .time a, .time b => a = b
  | .text a, .text b => a = b
  | _, _ => false

/-! ### Maps -/

/-- The members of a map that is being read. -/
structure Members where
  /-- All keys are taken as texts. -/
  asTexts : Bool
  /-- The keys that maps which are taken over may not set, while such maps are read. -/
  taken : Option (List Setting) := none
  found : List (Setting × Setting) := []

namespace Members

/-- The key of a member, or none if the member is passed over. -/
def key? (m : Members) (k : Node) : Option (Option Setting) :=
  if m.asTexts then (keyText? k).map (Option.map .text) else (keyValue? k).map some

def isTaken (m : Members) (key : Setting) : Bool := m.taken.any fun ks => ks.any (equalKeys key)

def insert (key value : Setting) : List (Setting × Setting) → List (Setting × Setting)
  | [] => [(key, value)]
  | (k, v) :: rest => if equalKeys k key then (k, value) :: rest else (k, v) :: insert key value rest

def add (m : Members) (key value : Setting) : Members :=
  { m with taken := m.taken.map (key :: ·), found := insert key value m.found }

def toSetting (m : Members) : Setting :=
  if m.asTexts then .map (Setting.textKeys m.found) else .table m.found

end Members

/-- The values of the keys of a map. -/
def keysOf : List (Node × Node) → Option (List Setting)
  | [] => some []
  | (k, _) :: rest => do return (← keyValue? k) :: (← keysOf rest)

/-- Keeps maps that are taken over from setting the keys of a map. -/
def Members.protect (m : Members) (members : List (Node × Node)) : Option Members :=
  if members.any fun m => isMerge m.1 then do return { m with taken := some (← keysOf members) }
  else some m

def isMap : Node → Bool
  | .map _ => true
  | _ => false

def isMapOrAlias : Node → Bool
  | .map _ | .alias _ _ => true
  | _ => false

mutual

/-- The value of a node. -/
def valueOf? : Node → Option Setting
  | .text tag s => Setting.ofTagged? tag s
  | .alias _ n => valueOf? n
  | .list items => (itemsOf? items).map .list
  | .map members => do
    if hasRepeats members then none
    else
      let m ← ownMembers members { asTexts := members.all fun m => isTextKey m.1 }
      let m ← takenOver members (← m.protect members)
      return m.toSetting

def itemsOf? : List Node → Option (List Setting)
  | [] => some []
  | n :: rest => do return (← valueOf? n) :: (← itemsOf? rest)

/-- Adds the members that a map has of its own. -/
def ownMembers : List (Node × Node) → Members → Option Members
  | [], m => some m
  | (k, v) :: rest, m => do
    if isMerge k then ownMembers rest m
    else match ← m.key? k with
      | none => ownMembers rest m
      | some key =>
        if m.isTaken key then ownMembers rest m
        else ownMembers rest (m.add key (← valueOf? v))

/-- Adds the members of the maps that a map takes over. -/
def takenOver : List (Node × Node) → Members → Option Members
  | [], m => some m
  | (k, v) :: rest, m => if isMerge k then takeOver v m else takenOver rest m

/-- Adds the members of a map, or of each map of a list. -/
def takeOver : Node → Members → Option Members
  | .text _ _, _ => none
  | .alias _ n, m => if isMap n then takeOver n m else none
  | .list items, m => takeOverAll items m
  | .map members, m => do
    if hasRepeats members then none
    else takenOver members (← ownMembers members m)

def takeOverAll : List Node → Members → Option Members
  | [], m => some m
  | n :: rest, m => do
    if isMapOrAlias n then takeOverAll rest (← takeOver n m) else none

end

/-- The settings of a file. The keys of the outermost map are all taken as texts. -/
def read? (s : String) : Option Setting := do
  match ← Node.read? s with
  | none => return .map []
  | some (.map members) =>
    if hasRepeats members then none
    else
      let m ← ownMembers members { asTexts := true }
      let m ← takenOver members (← m.protect members)
      return m.toSetting
  | some n =>
    match ← valueOf? n with
    | .null => return .map []
    | _ => none

end FlowCheck.YamlSettings
