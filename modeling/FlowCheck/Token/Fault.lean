import FlowCheck.Source.Pos
import FlowCheck.Text.Quoted

/-!
# Lexical faults

What can be wrong with a text below the level of tokens, each with its message.
-/
namespace FlowCheck

/-- The bases that a number can announce after a leading zero. -/
inductive Radix where
  | hex
  | octal
  | binary
  deriving DecidableEq, Repr

namespace Radix

def base : Radix → Nat
  | hex => 16
  | octal => 8
  | binary => 2

def text : Radix → String
  | hex => "hex"
  | octal => "octal"
  | binary => "binary"

end Radix

inductive LexFault where
  | unreadable (why : String)
  | illFormed
  | nul
  | unexpected (c : Char)
  | badDigit (radix : Radix)
  | emptyExponent
  | openString
  | unknownEscape (c : Option Char)
  | badHexEscape
  | openComment
  deriving DecidableEq, Repr

def LexFault.message : LexFault → String
  | unreadable why => "error reading source file: " ++ why
  | illFormed => "invalid UTF-8 encoding"
  | nul => "invalid NUL character"
  | unexpected c => "unexpected character " ++ Quoted.char c
  | badDigit radix => "invalid " ++ radix.text ++ " digit"
  | emptyExponent => "exponent has no digits"
  | openString => "string not terminated"
  | unknownEscape c => "unknown escape sequence: \\" ++ String.singleton (c.getD '\uFFFD')
  | badHexEscape => "invalid hex escape"
  | openComment => "comment not terminated"

/-- A fault and where it was found. -/
structure LexReport where
  pos : Pos
  fault : LexFault
  deriving DecidableEq, Repr

end FlowCheck
