import FlowCheck.Text.Binary64
import FlowCheck.Text.Boolean
import FlowCheck.Text.Integer
import FlowCheck.Text.LowerCase
import FlowCheck.Text.Timestamp

/-!
# Values of settings

Settings come from files, the environment and options, so a value need not have the type that is
asked for. Conversions are forgiving: what cannot be converted counts as false, zero or the empty
text. Keys are compared without regard to case.
-/
namespace FlowCheck

/-- What a time without a time zone says. -/
inductive CivilTime.Kind where
  | date
  | timeOfDay
  | dateTime
  deriving DecidableEq, Repr

/-- A date, a time of day, or both, without a time zone. -/
structure CivilTime where
  kind : CivilTime.Kind
  text : String
  deriving DecidableEq, Repr

inductive Setting where
  | null
  | flag (b : Bool)
  /-- A whole number of 64 bits, with or without a sign. -/
  | int (z : Int)
  /-- A whole number of which the file says that it has 64 bits. -/
  | long (z : Int)
  | number (x : Binary64)
  | time (t : Timestamp)
  | civil (t : CivilTime)
  | text (s : String)
  | list (items : List Setting)
  | map (members : List (String × Setting))
  /-- A map some of whose keys are no texts. -/
  | table (members : List (Setting × Setting))

namespace Setting

instance : Inhabited Setting := ⟨null⟩

def isNull : Setting → Bool
  | null => true
  | _ => false

/-! ### Forgiving conversions -/

/-- A whole number may be written with a fraction of zeros. What stands before the fraction is
found from the end of the text. -/
def beforeZeros (found : Bool) : (reversed : List Char) → Option (List Char)
  | '.' :: rest => if found then some rest else beforeZeros false rest
  | '0' :: rest => beforeZeros true rest
  | _ => none

def trimZeroFraction (s : String) : String :=
  (beforeZeros false s.toList.reverse).elim s fun rest => String.ofList rest.reverse

def toFlag : Setting → Bool
  | flag b => b
  | int z | long z => z ≠ 0
  | number x => !x.isZero
  | text s => (Boolean.parse? s).getD false
  | _ => false

/-- Numbers that use the sign bit for their size are taken as negative. -/
def toInt : Setting → Int
  | flag b => if b then 1 else 0
  | long z => z
  | int z => if z < Integer.signedWords then z else z - Integer.words
  | number x => x.truncate
  | text s => (Integer.parse (trimZeroFraction s)).toOption.getD 0
  | _ => 0

def toText : Setting → String
  | flag b => Boolean.text b
  | int z | long z => toString z
  | number x => x.text
  | time t => t.text
  | civil t => t.text
  | text s => s
  | _ => ""

/-! ### Keys -/

/-- The members of a map as if all its keys were texts. -/
def textKeys (members : List (Setting × Setting)) : List (String × Setting) :=
  members.map fun (k, v) => (k.toText, v)

mutual

/-- Maps with their keys in lower case, down to the first values that are no maps. -/
def loweredMaps : Setting → Setting
  | map members => map (loweredMapMembers members)
  | table members => map (loweredTableMembers members)
  | v => v

def loweredMapMembers : List (String × Setting) → List (String × Setting)
  | [] => []
  | (k, v) :: rest => (LowerCase.ofText k, v.loweredMaps) :: loweredMapMembers rest

def loweredTableMembers : List (Setting × Setting) → List (String × Setting)
  | [] => []
  | (k, v) :: rest => (LowerCase.ofText k.toText, v.loweredMaps) :: loweredTableMembers rest

end

mutual

/-- Maps with their keys in lower case, also those in lists. What is in a list in a map whose keys
are not all texts is left alone. -/
def lowered : Setting → Setting
  | list items => list (loweredItems items)
  | map members => map (loweredMembers members)
  | table members => (table members).loweredMaps
  | v => v

def loweredItems : List Setting → List Setting
  | [] => []
  | v :: rest => v.lowered :: loweredItems rest

def loweredMembers : List (String × Setting) → List (String × Setting)
  | [] => []
  | (k, v) :: rest => (LowerCase.ofText k, v.lowered) :: loweredMembers rest

end

/-- The value under a key, which is written in lower case. Nothing stands under a key whose value
is null. -/
def get? (v : Setting) (key : String) : Option Setting :=
  match v with
  | map members => (members.lookup key).filter fun v => !v.isNull
  | _ => none

def members : Setting → List (String × Setting)
  | map ms => ms
  | _ => []

/-- The members with a value put under a key, in the place of the old one if there is one. -/
def putMember (key : String) (value : Setting) :
    List (String × Setting) → List (String × Setting)
  | [] => [(key, value)]
  | (k, v) :: rest => if k = key then (key, value) :: rest else (k, v) :: putMember key value rest

/-- Puts a value at the end of a path of keys. What stands in the way and is no map makes room. -/
def put (v : Setting) : (path : List String) → (value : Setting) → Setting
  | [], value => value
  | key :: path, value =>
    map (putMember key (put ((v.members.lookup key).getD null) path value) v.members)

/-- Puts a value under a key, whose points lead into maps. -/
def assign (v : Setting) (key : String) (value : Setting) : Setting :=
  v.put ((LowerCase.ofText key).splitOn ".") value.loweredMaps

/-! ### Descriptions for messages -/

/-- The kind of a value. -/
def kind : Setting → String
  | null => "invalid"
  | flag _ => "bool"
  | int z => if z < Integer.signedWords then "int" else "uint64"
  | long _ => "int64"
  | number _ => "float64"
  | time _ | civil _ => "struct"
  | text _ => "string"
  | list _ => "slice"
  | map _ | table _ => "map"

/-- The kind of a value with the kinds of its parts. -/
def type : Setting → String
  | list _ => "[]interface \x7b\x7d"
  | map _ => "map[string]interface \x7b\x7d"
  | table _ => "map[interface \x7b\x7d]interface \x7b\x7d"
  | time _ => "time.Time"
  | civil t => match t.kind with
    | .date => "toml.LocalDate"
    | .timeOfDay => "toml.LocalTime"
    | .dateTime => "toml.LocalDateTime"
  | v => v.kind

/-- The order of keys of different kinds. -/
def rank : Setting → Nat
  | null => 0
  | flag _ => 1
  | int _ | long _ => 2
  | number _ => 3
  | text _ => 4
  | _ => 5

/-- The order in which keys are described. -/
def keyLe : Setting → Setting → Bool
  | flag a, flag b => !a || b
  | int a, int b => a ≤ b
  | number a, number b => a.le b
  | text a, text b => a ≤ b
  | time a, time b => a.le b
  | a, b => a.rank ≤ b.rank

mutual

/-- A value on one line, the members of maps in the order of their keys. -/
def describe : Setting → String
  | null => "<nil>"
  | number x => x.compactText
  | list items => "[" ++ " ".intercalate (describeItems items) ++ "]"
  | map ms =>
    "map[" ++ " ".intercalate
      (((describeMembers ms).mergeSort fun a b => a.1 ≤ b.1).map fun m => m.1 ++ ":" ++ m.2) ++ "]"
  | table ms =>
    "map[" ++ " ".intercalate
      (((describeTable ms).mergeSort fun a b => keyLe a.1 b.1).map fun m => m.2) ++ "]"
  | v => v.toText

def describeItems : List Setting → List String
  | [] => []
  | v :: rest => v.describe :: describeItems rest

def describeMembers : List (String × Setting) → List (String × String)
  | [] => []
  | (k, v) :: rest => (k, v.describe) :: describeMembers rest

/-- The keys of a map, each with the description of the member. -/
def describeTable : List (Setting × Setting) → List (Setting × String)
  | [] => []
  | (k, v) :: rest => (k, k.describe ++ ":" ++ v.describe) :: describeTable rest

end

end Setting

end FlowCheck
