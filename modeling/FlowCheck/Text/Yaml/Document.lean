import FlowCheck.Text.Yaml.Scalar

/-!
# YAML documents

Records and lists in block style, two spaces a level; the items of a list stand at the indentation
of its key. Rows of numbers are written on one line between brackets.
-/
namespace FlowCheck

inductive YamlDoc where
  | int (n : Int)
  | flag (b : Bool)
  | text (s : String)
  | row (numbers : List Int)
  | list (items : List YamlDoc)
  | record (members : List (String × YamlDoc))

namespace YamlDoc

def spaces (n : Nat) : String := String.ofList (List.replicate n ' ')

/-- The numbers of a row after the first `[`; a line that has grown beyond its width is continued
on the next one. -/
def rowItems (indent : Nat) : (col : Nat) → (isFirst : Bool) → List Int → String
  | _, _, [] => "]\n"
  | col, isFirst, n :: rest =>
    let comma := if isFirst then "" else ","
    let col := col + comma.length
    let gap :=
      if Yaml.lineWidth < col then "\n" ++ spaces indent
      else if isFirst then "" else " "
    let col := if Yaml.lineWidth < col then indent else col + gap.length
    let digits := toString n
    comma ++ gap ++ digits ++ rowItems indent (col + digits.length) false rest

mutual

/-- A value after its key or dash, which end at column `col`; what is below it is indented by
`indent`. -/
def render (indent col : Nat) : YamlDoc → String
  | int n => " " ++ toString n ++ "\n"
  | flag b => if b then " true\n" else " false\n"
  | text s => " " ++ Yaml.scalar (indent + 2) (col + 1) s
  | row numbers => " [" ++ rowItems (indent + 2) (col + 2) true numbers
  | list [] => " []\n"
  | list items => "\n" ++ renderItems indent items
  | record [] => " \x7b\x7d\n"
  | record members => "\n" ++ renderMembers (indent + 2) members

def renderItems (indent : Nat) : List YamlDoc → String
  | [] => ""
  | record ((k, v) :: members) :: rest =>
    spaces indent ++ "- " ++ k ++ ":" ++ v.render (indent + 2) (indent + 3 + k.length)
      ++ renderMembers (indent + 2) members ++ renderItems indent rest
  | v :: rest => spaces indent ++ "-" ++ v.render indent (indent + 1) ++ renderItems indent rest

def renderMembers (indent : Nat) : List (String × YamlDoc) → String
  | [] => ""
  | (k, v) :: rest =>
    spaces indent ++ k ++ ":" ++ v.render indent (indent + k.length + 1)
      ++ renderMembers indent rest

end

/-- A document whose root is a record. -/
def toText (members : List (String × YamlDoc)) : String := renderMembers 0 members

end YamlDoc

end FlowCheck
