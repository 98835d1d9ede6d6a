import FlowCheck.Flow.Graph
import FlowCheck.Text.Quoted
import FlowCheck.Text.Yaml.Document

/-!
# Graphs as text

Three views of a graph: indented text, a YAML document, and a drawing for graph layout tools, in
which unreachable blocks are dashed.
-/
namespace FlowCheck.Graph

def idList (ids : List BlockId) : String := " ".intercalate (ids.map BlockId.text)

/-- What dominance analysis has found out about a block. -/
def dominanceText (g : Graph) (b : BasicBlock) : String :=
  if g.order.isNone then ""
  else
    (if !g.isReachable b.id then " unreachable"
      else b.idom.elim "" fun d => " idom " ++ d.text)
      ++ if b.frontier.isEmpty then "" else " df " ++ idList (g.block b.id).frontier

def blockLines (g : Graph) (b : BasicBlock) : List String :=
  let title := "  " ++ b.id.text ++ ": (" ++ b.kind.text ++ ")"
    ++ (if b.preds.isEmpty then "" else " <- " ++ idList b.preds) ++ g.dominanceText b
  let succs := if b.succs.isEmpty then [] else ["-> " ++ idList b.succs]
  title :: ((b.phis.map Phi.text) ++ (b.nodes.map Node.summary) ++ succs).map ("    " ++ ·)

def text (g : Graph) : String :=
  String.join ((("func " ++ g.name ++ ":") :: g.blocks.toList.flatMap g.blockLines).map (· ++ "\n"))

/-! ### YAML -/

def numbers (ids : List BlockId) : List Int := ids.map BlockId.number

/-- A number for no block. -/
def numberOrNone (b : Option BlockId) : Int := b.elim (-1) BlockId.number

def blockDoc (g : Graph) (b : BasicBlock) : YamlDoc :=
  let row (key : String) (ids : List BlockId) : List (String × YamlDoc) :=
    if ids.isEmpty then [] else [(key, .row (numbers ids))]
  let texts (key : String) (items : List String) : List (String × YamlDoc) :=
    if items.isEmpty then [] else [(key, .list (items.map .text))]
  .record <|
    [("id", .int (BlockId.number b.id)), ("kind", .text b.kind.text),
      ("reachable", .flag (g.order.isSome && g.isReachable b.id))]
      ++ b.idom.elim [] (fun d => [("idom", .int (BlockId.number d))])
      ++ row "preds" b.preds ++ row "succs" b.succs ++ row "frontier" (g.block b.id).frontier
      ++ texts "phis" (b.phis.map Phi.text) ++ texts "nodes" (b.nodes.map Node.summary)

def yaml (g : Graph) : String :=
  YamlDoc.toText
    [("func", .text g.name), ("entry", .int (BlockId.number g.entry)),
      ("return", .int (numberOrNone g.ret)), ("exit", .int (numberOrNone g.exit)),
      ("end_reachable", .flag g.endReachable), ("blocks", .list (g.blocks.toList.map g.blockDoc))]

/-! ### Drawings -/

/-- Backslashes and quotation marks are escaped inside a label. -/
def escapeLabel (s : String) : String :=
  String.ofList (s.toList.flatMap fun c => if c = '\\' || c = '"' then ['\\', c] else [c])

def dotBlock (g : Graph) (b : BasicBlock) : String :=
  let rows := (b.phis.map Phi.text) ++ (b.nodes.map Node.summary)
  let label := b.id.text ++ " (" ++ b.kind.text ++ ")\\l"
    ++ String.join (rows.map fun r => escapeLabel r ++ "\\l")
  let dashed := g.order.isSome && !g.isReachable b.id
  "  " ++ b.id.text ++ " [label=\"" ++ label ++ "\"" ++ (if dashed then " style=dashed" else "")
    ++ "];\n"

def dot (g : Graph) : String :=
  "digraph " ++ Quoted.text g.name ++ " \x7b\n  node [shape=box fontname=monospace];\n"
    ++ String.join (g.blocks.toList.map g.dotBlock)
    ++ String.join (g.blocks.toList.flatMap fun b =>
      b.succs.map fun s => "  " ++ b.id.text ++ " -> " ++ s.text ++ ";\n")
    ++ "\x7d\n"

end FlowCheck.Graph
