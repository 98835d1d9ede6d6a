import FlowCheck.Flow.Graph

/-!
# Dominance

A block dominates another if every path from the entry to the second passes through the first. The
immediate dominators are computed on postorder numbers: each round sets a block's dominator to the
meeting point of its predecessors' chains, until a round changes nothing.
-/
namespace FlowCheck.Dominance

/-! ### Depth-first order -/

/-- Blocks seen so far, and blocks left, in the order of leaving them. -/
structure Search where
  seen : List BlockId := []
  post : List BlockId := []

/-- Visits a block and, from it, every block not seen yet. -/
def visit (g : Graph) : (fuel : Nat) → Search → BlockId → Search
  | 0, s, _ => s
  | fuel + 1, s, b =>
    let s := { s with seen := b :: s.seen }
    let s := (g.succs b).foldl (fun s t => if s.seen.contains t then s else visit g fuel s t) s
    { s with post := s.post ++ [b] }

/-- The blocks reachable from the entry in postorder. -/
def postorder (g : Graph) : List BlockId := (visit g (g.blocks.size + 1) {} g.entry).post

/-! ### Immediate dominators -/

/-- The dominator found so far for each postorder number. -/
abbrev Table := Array (Option Nat)

/-- The first number that the chains from `a` and `b` share. -/
def meet (t : Table) : (fuel : Nat) → (a b : Nat) → Nat
  | 0, a, _ => a
  | fuel + 1, a, b =>
    if a = b then a
    else if a < b then meet t fuel ((t.getD a none).getD a) b
    else meet t fuel a ((t.getD b none).getD b)

/-- The dominator of a block as its predecessors, given by postorder number, see it now; those
without a dominator of their own say nothing yet. -/
def candidate (t : Table) (preds : List Nat) : Option Nat :=
  preds.foldl (fun found p =>
    if (t.getD p none).isNone then found
    else match found with
      | none => some p
      | some d => some (meet t (2 * t.size + 1) p d)) none

/-- One round over the blocks, given by postorder number with their predecessors. -/
def sweep (t : Table) (blocks : List (Nat × List Nat)) : Table :=
  blocks.foldl (fun t b => t.setIfInBounds b.1 (candidate t b.2)) t

/-- Rounds until one changes nothing. -/
def settle (blocks : List (Nat × List Nat)) : (fuel : Nat) → Table → Table
  | 0, t => t
  | fuel + 1, t =>
    let t' := sweep t blocks
    if t' = t then t else settle blocks fuel t'

/-- The immediate dominator of each block of a postorder, by postorder number. -/
def table (g : Graph) (post : List BlockId) : Table :=
  let count := post.length
  let start : Table := (Array.replicate count none).setIfInBounds (post.idxOf g.entry)
    (some (post.idxOf g.entry))
  let blocks := post.reverse.tail.map fun b =>
    (post.idxOf b, ((g.preds b).filter post.contains).map post.idxOf)
  settle blocks (count * count + 2) start

end Dominance

namespace Graph

/-- Forgets what an earlier analysis found about dominance. -/
def clearDominance (g : Graph) : Graph :=
  { g with blocks := g.blocks.map fun b => { b with idom := none, dominees := [] } }

/-- Puts `b` below its immediate dominator. -/
def setIdom (g : Graph) (b d : BlockId) : Graph :=
  let g := g.modifyBlock b fun block => { block with idom := some d }
  g.modifyBlock d fun block => { block with dominees := block.dominees ++ [b] }

/-- Finds the immediate dominator of every block reachable from the entry, and the tree that they
form; the dominees of a block are in reverse postorder. -/
def computeDominance (g : Graph) : Graph :=
  let post := Dominance.postorder g
  let order := post.reverse
  let t := Dominance.table g post
  let found := order.tail.filterMap fun b =>
    ((t.getD (post.idxOf b) none).bind fun d => post[d]?).map (b, ·)
  let g := found.foldl (fun g (b, d) => g.setIdom b d) g.clearDominance
  { g with order := some order }

/-- The chain of dominators of a block, itself first. -/
def dominators (g : Graph) : (fuel : Nat) → Option BlockId → List BlockId
  | 0, _ => []
  | _, none => []
  | fuel + 1, some b => b :: g.dominators fuel (g.idom b)

/-- Whether `a` dominates `b`; every block dominates itself. -/
def dominates (g : Graph) (a b : BlockId) : Bool :=
  (g.dominators (g.blocks.size + 1) (some b)).contains a

/-! ### Frontiers -/

/-- Adds a number to a list in increasing order that holds each number once. -/
def insertSorted (x : Nat) : List Nat → List Nat
  | [] => [x]
  | y :: rest =>
    if x < y then x :: y :: rest
    else if x = y then y :: rest
    else y :: insertSorted x rest

/-- A block and everything below it in the dominator tree, each block before its dominees. -/
def treeBelow (g : Graph) : (fuel : Nat) → BlockId → List BlockId
  | 0, _ => []
  | fuel + 1, b => b :: (g.block b).dominees.flatMap (g.treeBelow fuel)

/-- The dominator tree. -/
def dominatorTree (g : Graph) : List BlockId := g.treeBelow g.blocks.size g.entry

/-- The successors of a block that it does not immediately dominate, and those of its dominees'
frontiers. -/
def frontierOf (g : Graph) : (fuel : Nat) → BlockId → List BlockId
  | 0, _ => []
  | fuel + 1, u =>
    let below := (g.block u).dominees.flatMap (g.frontierOf fuel)
    let beyond := (g.succs u ++ below).filter fun s => g.idom s ≠ some u
    beyond.foldl (fun found s => insertSorted s found) []

/-- Finds the dominance frontier of every block of the dominator tree. -/
def computeFrontiers (g : Graph) : Graph :=
  let cleared := { g with blocks := g.blocks.map fun b => { b with frontier := [] } }
  g.dominatorTree.foldl (fun h u =>
    h.modifyBlock u fun b => { b with frontier := g.frontierOf g.blocks.size u }) cleared

end Graph

end FlowCheck
