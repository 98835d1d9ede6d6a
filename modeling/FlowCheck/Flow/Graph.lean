import FlowCheck.Flow.Block

/-!
# Control-flow graphs

The blocks of a function, known by their index. The entry has no nodes; the return block collects
every return and the end of the body and continues to the exit, which errors reach directly.
-/
namespace FlowCheck

structure Graph where
  name : String
  blocks : Array BasicBlock := #[]
  entry : BlockId := 0
  ret : Option BlockId := none
  exit : Option BlockId := none
  /-- Control can fall off the end of the body. -/
  endReachable : Bool := false
  /-- The reachable blocks in reverse postorder, once dominance has been computed. -/
  order : Option (List BlockId) := none

namespace Graph

/-- A block that no edge leaves or enters, for numbers that name no block. -/
def absent (b : BlockId) : BasicBlock := { id := b, kind := .plain }

def block (g : Graph) (b : BlockId) : BasicBlock := g.blocks.getD b (absent b)

def succs (g : Graph) (b : BlockId) : List BlockId := (g.block b).succs

def preds (g : Graph) (b : BlockId) : List BlockId := (g.block b).preds

def idom (g : Graph) (b : BlockId) : Option BlockId := (g.block b).idom

def modifyBlock (g : Graph) (b : BlockId) (f : BasicBlock → BasicBlock) : Graph :=
  { g with blocks := g.blocks.modify b f }

/-- Adds a block without edges and returns its number. -/
def newBlock (g : Graph) (kind : BlockKind) : BlockId × Graph :=
  let id := g.blocks.size
  (id, { g with blocks := g.blocks.push { id, kind } })

/-- A graph with an entry and nothing else. -/
def ofName (name : String) : Graph := (newBlock { name } .entry).2

def hasEdge (g : Graph) (a b : BlockId) : Bool := (g.succs a).contains b

/-- Adds the edge from `a` to `b` at the end of both lists, unless it is there. -/
def addEdge (g : Graph) (a b : BlockId) : Graph :=
  if g.hasEdge a b then g
  else
    let g := g.modifyBlock a fun block => { block with succs := block.succs ++ [b] }
    g.modifyBlock b fun block => { block with preds := block.preds ++ [a] }

/-- Adds an edge from a block, or nothing where there is no block to come from. -/
def connect (g : Graph) (a : Option BlockId) (b : BlockId) : Graph :=
  a.elim g fun a => g.addEdge a b

def addNode (g : Graph) (b : BlockId) (n : Node) : Graph :=
  g.modifyBlock b fun block => { block with nodes := block.nodes ++ [n] }

/-- Reachable from the entry, as far as dominance analysis has found. -/
def isReachable (g : Graph) (b : BlockId) : Bool := b = g.entry || (g.idom b).isSome

/-- The blocks with their numbers. -/
def numbered (g : Graph) : List (BlockId × BasicBlock) := (List.range g.blocks.size).zip g.blocks.toList

def phiCount (g : Graph) : Nat :=
  g.blocks.toList.foldl (fun n b => n + b.phis.length) 0

/-- The first block that holds a node, known by its number. -/
def blockOf? (g : Graph) (node : Nat) : Option BlockId :=
  (g.blocks.toList.find? fun b => b.nodes.any fun n => n.id == node).map BasicBlock.id

/-! ### Phis -/

/-- Adds a phi with one unset operand for every edge into the block. -/
def addPhi (g : Graph) (v : Var) (b : BlockId) : Graph :=
  g.modifyBlock b fun block =>
    { block with
      phis := block.phis ++ [{ var := v, block := b, operands := block.preds.map fun _ => none }] }

def phi? (g : Graph) (r : PhiRef) : Option Phi := (g.block r.block).phis[r.index]?

def phiFor? (g : Graph) (v : Var) (b : BlockId) : Option Phi :=
  (g.block b).phis.find? fun p => p.var = v

/-- All phis as text, block by block. -/
def phiTexts (g : Graph) : List String :=
  g.blocks.toList.flatMap fun b => b.phis.map fun p => b.id.text ++ ": " ++ p.text

end Graph

end FlowCheck
