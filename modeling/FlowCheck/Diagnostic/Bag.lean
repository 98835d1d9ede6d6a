import FlowCheck.Diagnostic.Basic

/-!
# Collected diagnostics

A bag keeps diagnostics in the order in which they are reported and shows them in the order of
their positions. It can be told to take every warning for an error.
-/
namespace FlowCheck

structure Bag where
  warningsAsErrors : Bool := false
  items : List Diagnostic := []
  deriving Repr

namespace Bag

/-- A warning becomes an error if the bag takes warnings for errors. -/
def promote (b : Bag) (d : Diagnostic) : Diagnostic :=
  if b.warningsAsErrors && d.severity = .warning then { d with severity := .error } else d

def report (b : Bag) (d : Diagnostic) : Bag := { b with items := b.items ++ [b.promote d] }

def reportAll (b : Bag) (ds : List Diagnostic) : Bag := ds.foldl report b

def errors (b : Bag) : Nat := b.items.countP Diagnostic.isError

/-- Everything that is no error counts as a warning. -/
def warnings (b : Bag) : Nat := b.items.countP fun d => !d.isError

/-- Diagnostics by position; those at one position stay in the order of their reports. -/
def sorted (b : Bag) : List Diagnostic :=
  b.items.mergeSort fun d e => !e.pos.before d.pos

/-- One line a diagnostic. If `limit` is positive, one line counts those beyond it. -/
def text (b : Bag) (limit : Int) : String :=
  let all := b.sorted
  let shown := if limit > 0 then all.take limit.toNat else all
  let hidden := all.length - shown.length
  String.join (shown.map fun d => d.render ++ "\n")
    ++ if hidden = 0 then "" else "too many diagnostics (" ++ toString hidden ++ " more)\n"

end Bag

end FlowCheck
