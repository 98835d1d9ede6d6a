/-!
# The progress of a check

What a check tells about its progress: an event has a level, a message and named values.
-/
namespace FlowCheck

inductive Event where
  | parseFailed (file : String) (errors : Nat)
  | parsed (file : String) (decls : Nat)
  | resolutionFailed (file first : String)
  | analyzing (func : String)
  | aborted (func : String)
  | analyzed (func : String) (blocks phis : Nat) (endReachable : Bool)
  | completed (file : String) (funcs errors warnings : Nat)
  deriving DecidableEq, Repr

inductive Event.Value where
  | text (s : String)
  | count (n : Nat)
  | flag (b : Bool)
  deriving DecidableEq, Repr

namespace Event

def level : Event → String
  | parsed .. | analyzing _ | analyzed .. => "debug"
  | parseFailed .. | resolutionFailed .. | aborted _ | completed .. => "info"

def message : Event → String
  | parseFailed .. => "Parse failed"
  | parsed .. => "Parsed file"
  | resolutionFailed .. => "Resolution failed"
  | analyzing _ => "Analyzing function"
  | aborted _ => "Analysis aborted"
  | analyzed .. => "Analyzed function"
  | completed .. => "Check completed"

def values : Event → List (String × Value)
  | parseFailed file errors => [("file", .text file), ("errors", .count errors)]
  | parsed file decls => [("file", .text file), ("decls", .count decls)]
  | resolutionFailed file first => [("file", .text file), ("error", .text first)]
  | analyzing func => [("func", .text func)]
  | aborted func => [("func", .text func)]
  | analyzed func blocks phis endReachable =>
    [("func", .text func), ("blocks", .count blocks), ("phis", .count phis),
      ("end_reachable", .flag endReachable)]
  | completed file funcs errors warnings =>
    [("file", .text file), ("funcs", .count funcs), ("errors", .count errors),
      ("warnings", .count warnings)]

end Event

end FlowCheck
