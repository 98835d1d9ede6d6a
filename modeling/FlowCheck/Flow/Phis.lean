import FlowCheck.Flow.Dominance

/-!
# Placing phis

A variable gets a phi wherever two of its definitions can meet: on the frontier of every reachable
block that defines it or already has a phi for it.
-/
namespace FlowCheck.Graph

/-- The variables that a block's nodes assign, in order. -/
def blockDefs (facts : Facts) (b : BasicBlock) : List Var := b.nodes.flatMap facts.defs

def reachableBlocks (g : Graph) : List BasicBlock :=
  g.blocks.toList.filter fun b => g.isReachable b.id

/-- The variables that each reachable block assigns. -/
def definitions (g : Graph) (facts : Facts) : List (BlockId × List Var) :=
  g.reachableBlocks.map fun b => (b.id, blockDefs facts b)

/-- The variables of definitions, in the order of the first one of each. -/
def definedVars (definitions : List (BlockId × List Var)) : List Var :=
  (definitions.flatMap (·.2)).foldl
    (fun vars v => if vars.contains v then vars else vars ++ [v]) []

/-- The blocks that define a variable, in increasing order. -/
def definingBlocks (definitions : List (BlockId × List Var)) (v : Var) : List BlockId :=
  (definitions.filter fun d => d.2.contains v).foldl (fun ids d => insertSorted d.1 ids) []

/-- Phis on their way into a graph: the blocks whose frontier is still to be visited, and for each
block the round in which it was last put there and the one in which it was last given a phi. There
is one round for each variable, counted from one, and marks of earlier rounds do not count. -/
structure Placement where
  graph : Graph
  round : Nat := 0
  work : List BlockId := []
  queued : Array Nat
  placed : Array Nat

namespace Placement

def ofGraph (g : Graph) : Placement :=
  { graph := g
    queued := Array.replicate g.blocks.size 0
    placed := Array.replicate g.blocks.size 0 }

/-- Begins the round of the next variable. -/
def next (p : Placement) : Placement := { p with round := p.round + 1, work := [] }

/-- Puts a block among those whose frontier is to be visited. -/
def queue (p : Placement) (b : BlockId) : Placement :=
  { p with work := b :: p.work, queued := p.queued.setIfInBounds b p.round }

/-- Gives a block its phi. -/
def give (v : Var) (p : Placement) (d : BlockId) : Placement :=
  { p with graph := p.graph.addPhi v d, placed := p.placed.setIfInBounds d p.round }

/-- Gives a frontier block its phi, unless it has one, and visits its own frontier later. -/
def add (v : Var) (p : Placement) (d : BlockId) : Placement :=
  if p.placed.getD d 0 = p.round then p
  else if p.queued.getD d 0 = p.round then p.give v d
  else (p.give v d).queue d

/-- Visits frontiers until no block waits. -/
def settle (v : Var) : (fuel : Nat) → Placement → Placement
  | 0, p => p
  | fuel + 1, p =>
    match p.work with
    | [] => p
    | b :: work => settle v fuel ((p.graph.block b).frontier.foldl (add v) { p with work })

/-- Places the phis of a variable that the given blocks define. -/
def place (p : Placement) (v : Var) (defining : List BlockId) : Placement :=
  settle v (defining.length + p.graph.blocks.size + 1) (defining.foldl queue p.next)

end Placement

/-- Places the phis of variables, one variable after the other. -/
def placePhis (g : Graph) (definitions : List (BlockId × List Var)) (vars : List Var) : Graph :=
  (vars.foldl (fun p v => p.place v (definingBlocks definitions v)) (Placement.ofGraph g)).graph

/-- Places the phis of all variables. -/
def insertPhis (g : Graph) (facts : Facts) : Graph :=
  let definitions := g.definitions facts
  g.placePhis definitions (definedVars definitions)

end FlowCheck.Graph
