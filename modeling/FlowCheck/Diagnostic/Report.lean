import FlowCheck.Diagnostic.Bag
import FlowCheck.Text.Yaml.Document

/-!
# Diagnostics as a YAML document

The counts, and then every diagnostic in the order of positions.
-/
namespace FlowCheck.Bag

def itemDoc (d : Diagnostic) : YamlDoc :=
  .record
    [("stage", .text d.stage.text), ("severity", .text d.severity.text),
      ("code", .text d.code.text), ("message", .text d.message), ("file", .text d.pos.file),
      ("line", .int d.pos.line), ("col", .int d.pos.col)]

def yaml (b : Bag) : String :=
  YamlDoc.toText
    [("errors", .int b.errors), ("warnings", .int b.warnings),
      ("diagnostics", .list (b.sorted.map itemDoc))]

end FlowCheck.Bag
