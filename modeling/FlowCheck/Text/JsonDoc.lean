import FlowCheck.Text.Quoted

/-!
# JSON documents

Values and their indented text: two spaces a level, the members of an object in the order of their
keys, and the characters that HTML or a script reader would take for markup written as escapes.
-/
namespace FlowCheck

inductive JsonDoc where
  | text (s : String)
  | flag (b : Bool)
  | list (items : List JsonDoc)
  | object (members : List (String × JsonDoc))

namespace JsonDoc

def escapeChar (c : Char) : List Char :=
  match c with
  | '"' => ['\\', '"']
  | '\\' => ['\\', '\\']
  | '\x08' => ['\\', 'b']
  | '\x0c' => ['\\', 'f']
  | '\n' => ['\\', 'n']
  | '\r' => ['\\', 'r']
  | '\t' => ['\\', 't']
  | _ =>
    if c.toNat < 0x20 || c = '<' || c = '>' || c = '&' || c = '\u2028' || c = '\u2029' then
      '\\' :: 'u' :: Quoted.hex 4 c.toNat
    else [c]

def quote (s : String) : String :=
  String.ofList ('"' :: s.toList.flatMap escapeChar ++ ['"'])

/-- The member before which a member with the key `k` stands. -/
def insertMember (k : String) (v : JsonDoc) : List (String × JsonDoc) → List (String × JsonDoc)
  | [] => [(k, v)]
  | (k', v') :: rest => if k < k' then (k, v) :: (k', v') :: rest else (k', v') :: insertMember k v rest

/-- An object whose members are put in the order of their keys. -/
def ofMembers (members : List (String × JsonDoc)) : JsonDoc :=
  object (members.foldl (fun sorted m => insertMember m.1 m.2 sorted) [])

mutual

/-- The text of a value whose first line is already indented and whose others start with `indent`. -/
def render (indent : String) : JsonDoc → String
  | text s => quote s
  | flag b => if b then "true" else "false"
  | list [] => "[]"
  | list (x :: rest) =>
    "[\n" ++ indent ++ "  " ++ x.render (indent ++ "  ") ++ renderItems (indent ++ "  ") rest
      ++ "\n" ++ indent ++ "]"
  | object [] => "\x7b\x7d"
  | object ((k, v) :: rest) =>
    "\x7b\n" ++ indent ++ "  " ++ quote k ++ ": " ++ v.render (indent ++ "  ")
      ++ renderMembers (indent ++ "  ") rest ++ "\n" ++ indent ++ "\x7d"

def renderItems (indent : String) : List JsonDoc → String
  | [] => ""
  | x :: rest => ",\n" ++ indent ++ x.render indent ++ renderItems indent rest

def renderMembers (indent : String) : List (String × JsonDoc) → String
  | [] => ""
  | (k, v) :: rest =>
    ",\n" ++ indent ++ quote k ++ ": " ++ v.render indent ++ renderMembers indent rest

end

/-- A whole document, closed by a newline. -/
def toText (doc : JsonDoc) : String := doc.render "" ++ "\n"

end JsonDoc

end FlowCheck
