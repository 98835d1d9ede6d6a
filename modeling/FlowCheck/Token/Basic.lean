/-!
# Tokens

The vocabulary of the language: literals, operators with their binding strength, delimiters and
keywords. Tokens are numbered in the order of `Token.all`, for callers that name them by number.
-/
namespace FlowCheck

inductive LitKind where
  | int
  | float
  | string
  deriving DecidableEq, Repr, Inhabited

namespace LitKind

def text : LitKind → String
  | int => "int"
  | float => "float"
  | string => "string"

/-- The name of a kind given by an eight-bit number; a number beyond the kinds names itself. -/
def numberText (n : Nat) : String :=
  match n % 256 with
  | 0 => int.text
  | 1 => float.text
  | 2 => string.text
  | k => "LitKind(" ++ toString k ++ ")"

end LitKind

inductive BinaryOp where
  | orElse
  | andThen
  | eq
  | ne
  | lt
  | le
  | gt
  | ge
  | add
  | sub
  | bitOr
  | bitXor
  | mul
  | div
  | rem
  | bitAnd
  | shl
  | shr
  deriving DecidableEq, Repr

namespace BinaryOp

def text : BinaryOp → String
  | orElse => "||"
  | andThen => "&&"
  | eq => "=="
  | ne => "!="
  | lt => "<"
  | le => "<="
  | gt => ">"
  | ge => ">="
  | add => "+"
  | sub => "-"
  | bitOr => "|"
  | bitXor => "^"
  | mul => "*"
  | div => "/"
  | rem => "%"
  | bitAnd => "&"
  | shl => "<<"
  | shr => ">>"

/-- Operators of a higher precedence bind tighter; operators of one precedence group to the left. -/
def precedence : BinaryOp → Nat
  | orElse => 1
  | andThen => 2
  | eq | ne | lt | le | gt | ge => 3
  | add | sub | bitOr | bitXor => 4
  | mul | div | rem | bitAnd | shl | shr => 5

theorem precedence_pos (op : BinaryOp) : 0 < op.precedence := by
  cases op <;> decide

end BinaryOp

inductive UnaryOp where
  | not
  | neg
  deriving DecidableEq, Repr

def UnaryOp.text : UnaryOp → String
  | not => "!"
  | neg => "-"

inductive Keyword where
  | kwBreak
  | kwCase
  | kwCatch
  | kwContinue
  | kwDefault
  | kwElse
  | kwErrordomain
  | kwFinally
  | kwFor
  | kwFunc
  | kwIf
  | kwIn
  | kwOut
  | kwPackage
  | kwReturn
  | kwSwitch
  | kwThrow
  | kwThrows
  | kwTry
  | kwVar
  deriving DecidableEq, Repr

namespace Keyword

def text : Keyword → String
  | kwBreak => "break"
  | kwCase => "case"
  | kwCatch => "catch"
  | kwContinue => "continue"
  | kwDefault => "default"
  | kwElse => "else"
  | kwErrordomain => "errordomain"
  | kwFinally => "finally"
  | kwFor => "for"
  | kwFunc => "func"
  | kwIf => "if"
  | kwIn => "in"
  | kwOut => "out"
  | kwPackage => "package"
  | kwReturn => "return"
  | kwSwitch => "switch"
  | kwThrow => "throw"
  | kwThrows => "throws"
  | kwTry => "try"
  | kwVar => "var"

def all : List Keyword :=
  [kwBreak, kwCase, kwCatch, kwContinue, kwDefault, kwElse, kwErrordomain, kwFinally, kwFor,
    kwFunc, kwIf, kwIn, kwOut, kwPackage, kwReturn, kwSwitch, kwThrow, kwThrows, kwTry, kwVar]

theorem mem_all (k : Keyword) : k ∈ all := by
  cases k <;> decide

end Keyword

/-- A token without its text; `invalid` is reserved and never scanned. -/
inductive Token where
  | eof
  | invalid
  | name
  | literal (kind : LitKind)
  | assign
  | define
  | op (o : BinaryOp)
  | not
  | lparen
  | rparen
  | lbrack
  | rbrack
  | lbrace
  | rbrace
  | comma
  | semi
  | colon
  | dot
  | keyword (k : Keyword)
  deriving DecidableEq, Repr

namespace Token

instance : Inhabited Token := ⟨eof⟩

def text : Token → String
  | eof => "EOF"
  | invalid => "ERROR"
  | name => "NAME"
  | literal _ => "LITERAL"
  | assign => "="
  | define => ":="
  | op o => o.text
  | not => "!"
  | lparen => "("
  | rparen => ")"
  | lbrack => "["
  | rbrack => "]"
  | lbrace => "\x7b"
  | rbrace => "\x7d"
  | comma => ","
  | semi => ";"
  | colon => ":"
  | dot => "."
  | keyword k => k.text

/-- Zero for a token that is no binary operator. -/
def precedence : Token → Nat
  | op o => o.precedence
  | _ => 0

def isKeyword : Token → Bool
  | keyword _ => true
  | _ => false

def isLiteral : Token → Bool
  | literal _ => true
  | _ => false

def isOperator : Token → Bool
  | assign | define | op _ | not => true
  | _ => false

/-- The token of an identifier: a keyword if it spells one, a name otherwise. -/
def ofWord (word : String) : Token :=
  match Keyword.all.find? (fun k => k.text == word) with
  | some k => keyword k
  | none => name

/-- A newline or the end of the text after such a token ends a statement. -/
def endsStatement : Token → Bool
  | name | literal _ | rparen | rbrack | rbrace => true
  | keyword .kwBreak | keyword .kwContinue | keyword .kwReturn => true
  | _ => false

/-- All tokens in numbering order, literals represented by the first kind. -/
def all : List Token :=
  [eof, invalid, name, literal .int, assign, define,
    op .orElse, op .andThen, op .eq, op .ne, op .lt, op .le, op .gt, op .ge,
    op .add, op .sub, op .bitOr, op .bitXor,
    op .mul, op .div, op .rem, op .bitAnd, op .shl, op .shr,
    not, lparen, rparen, lbrack, rbrack, lbrace, rbrace, comma, semi, colon, dot]
    ++ Keyword.all.map keyword

def ofNumber? (n : Nat) : Option Token := all[n]?

/-- All literals share one number. -/
def number : Token → Nat
  | literal _ => all.idxOf (literal .int)
  | t => all.idxOf t

/-- The text of a token given by number; a number beyond the tokens names itself. -/
def numberText (n : Nat) : String :=
  match ofNumber? n with
  | some t => t.text
  | none => "token(" ++ toString n ++ ")"

end Token

end FlowCheck
