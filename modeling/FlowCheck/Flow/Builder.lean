import FlowCheck.Diagnostic.Basic
import FlowCheck.Flow.Graph

/-!
# Building graphs: the cursor

A graph is built while walking over the statements of a function. The cursor is the block that the
next node goes to. There is none while the code being visited cannot be reached; such code is
recorded as dead, and the first statement of every run of it gets a warning.
-/
namespace FlowCheck

/-- Why no graph was built. A jump out of a `finally` block has been reported as a diagnostic; the
other two are slips of the construction itself. -/
inductive Aborted where
  | jumpOutOfFinally
  /-- A node was to be added where there is no block for it. -/
  | nodeWithoutBlock
  /-- A return found no end of the function to go to. -/
  | returnWithoutTarget
  deriving DecidableEq, Repr

namespace Build

structure State where
  graph : Graph
  cursor : Option BlockId := none
  /-- The current run of dead statements has been reported. -/
  warned : Bool := false
  /-- Findings in the order in which they were made. -/
  diagnostics : List Diagnostic := []
  /-- The numbers of the nodes found to be dead. -/
  dead : List Nat := []

end Build

/-- What has been built so far outlives an abort. -/
abbrev Builder := EStateM Aborted Build.State

namespace Build

def cursor : Builder (Option BlockId) := return (← get).cursor

def preds (b : BlockId) : Builder (List BlockId) := return (← get).graph.preds b

def newBlock (kind : BlockKind) : Builder BlockId :=
  modifyGet fun s =>
    let (id, graph) := s.graph.newBlock kind
    (id, { s with graph })

/-- Adds an edge, if there is a block for it to come from. -/
def connect (a : Option BlockId) (b : BlockId) : Builder Unit :=
  modify fun s => { s with graph := s.graph.connect a b }

/-- Adds an edge from the block being filled, if there is one. -/
def connectHere (b : BlockId) : Builder Unit := do connect (← cursor) b

/-- Adds a node to the block being filled. -/
def add (n : Node) : Builder Unit := do
  match ← cursor with
  | none => throw .nodeWithoutBlock
  | some b => modify fun s => { s with graph := s.graph.addNode b n }

/-- Moves the cursor without ending a run of dead statements. -/
def moveTo (b : Option BlockId) : Builder Unit := modify fun s => { s with cursor := b }

/-- Goes on in a block, or as unreachable code. -/
def goOn (b : Option BlockId) : Builder Unit := modify fun s => { s with cursor := b, warned := false }

/-- Goes on in a block that is meant to be reached by jumps; it is unreachable if there are none. -/
def goOnIfEntered (b : BlockId) : Builder Unit := do
  goOn (if (← preds b).isEmpty then none else some b)

/-- Goes on in a new block that is entered from the given one. -/
def branch (kind : BlockKind) (from? : Option BlockId) : Builder Unit := do
  let b ← newBlock kind
  connect from? b
  goOn (some b)

/-- Goes on in a new branch if it can be taken, and as unreachable code if not. -/
def branchIf (taken : Bool) (from? : Option BlockId) : Builder Unit :=
  if taken then branch .branch from? else goOn none

/-- Goes on where two paths meet, if one of them gets there. -/
def join (a b : Option BlockId) : Builder Unit :=
  if a.isNone && b.isNone then goOn none
  else do
    let meet ← newBlock .join
    connect a meet
    connect b meet
    goOn (some meet)

def report (severity : Severity) (code : Code) (pos : Pos) (message : String) : Builder Unit :=
  modify fun s => { s with
    diagnostics := s.diagnostics ++ [⟨.flow, severity, code, pos, message⟩] }

def markDead (ids : List Nat) : Builder Unit := modify fun s => { s with dead := s.dead ++ ids }

/-- Records a node and everything below it as dead. -/
def markTreeDead (n : Node) : Builder Unit := markDead (n.subtree.map Node.id)

/-- Records a single node as dead if the code here is unreachable, without a warning. -/
def markHere (m : Mark) : Builder Unit := do
  if (← cursor).isNone then markDead [m.id]

/-- Passes over a statement that cannot be reached. -/
def skipDead (n : Node) : Builder Unit := do
  markTreeDead n
  if !(← get).warned then
    report .warning .unreachableCode n.pos "unreachable code detected"
    modify fun s => { s with warned := true }

/-- Builds a statement where it can be reached. -/
def whenReached (n : Node) (build : Builder Unit) : Builder Unit := do
  if (← cursor).isSome then build else skipDead n

end Build

end FlowCheck
