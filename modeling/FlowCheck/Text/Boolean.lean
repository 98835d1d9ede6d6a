/-!
# Words for true and false

The spellings of a boolean in settings and options.
-/
namespace FlowCheck.Boolean

def parse? (s : String) : Option Bool :=
  if ["1", "t", "T", "TRUE", "true", "True"].contains s then some true
  else if ["0", "f", "F", "FALSE", "false", "False"].contains s then some false
  else none

def text (b : Bool) : String := if b then "true" else "false"

theorem parse?_text (b : Bool) : parse? (text b) = some b := by
  cases b <;> rfl

end FlowCheck.Boolean
