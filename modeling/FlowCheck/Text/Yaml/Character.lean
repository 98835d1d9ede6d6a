/-!
# Blanks and line breaks

The characters that separate words and lines in YAML.
-/
namespace FlowCheck.Yaml

def isBlank (c : Char) : Bool := c = ' ' || c = '\t'

def isBreak (c : Char) : Bool :=
  c = '\r' || c = '\n' || c = '\u0085' || c = '\u2028' || c = '\u2029'

def isSpace (c : Char) : Bool := isBlank c || isBreak c

end FlowCheck.Yaml
