import FlowCheck.Flow.Dominance

/-!
# Verifying graphs

`Graph.defects` lists everything that is wrong with the structure of a graph: numbers that do not
match, edges that only one end knows, phis of the wrong size and, once dominance has been computed,
dominators that do not dominate.
-/
namespace FlowCheck

/-- Blocks are named by the numbers that they carry. -/
inductive Defect where
  | noBlocks
  | wrongEntry (first : BlockId)
  | enteredEntry (count : Nat)
  | outOfRange
  | returnMissesExit (ret exit : BlockId)
  | leftExit (count : Nat)
  | wrongNumber (index : Nat) (id : BlockId)
  | unknownSucc (b s : BlockId)
  | doubleEdge (b s : BlockId)
  | oneSidedSucc (b s : BlockId)
  | unknownPred (b p : BlockId)
  | oneSidedPred (b p : BlockId)
  | misplacedPhi (b : BlockId) (var : String) (claimed : BlockId)
  | missizedPhi (b : BlockId) (var : String) (operands preds : Nat)
  | dominatedEntry (idom : BlockId)
  | noIdom (b : BlockId)
  | wrongIdom (b idom p : BlockId)
  deriving DecidableEq, Repr

def Defect.message (func : String) (d : Defect) : String :=
  let here := "func " ++ func ++ ": "
  let at_ (b : BlockId) := "func " ++ func ++ ", " ++ b.text ++ ": "
  match d with
  | noBlocks => here ++ "no blocks"
  | wrongEntry b => here ++ "entry is " ++ b.text ++ ", want b0"
  | enteredEntry n => here ++ "entry block has " ++ toString n ++ " predecessors, want 0"
  | outOfRange => here ++ "return or exit block out of range"
  | returnMissesExit r e =>
    here ++ "return block " ++ r.text ++ " does not continue to exit " ++ e.text
  | leftExit n => here ++ "exit block has " ++ toString n ++ " successors, want 0"
  | wrongNumber i id =>
    here ++ "block at index " ++ toString i ++ " has ID " ++ toString (BlockId.number id)
  | unknownSucc b s => at_ b ++ "successor " ++ s.text ++ " not in function"
  | doubleEdge b s => at_ b ++ "duplicate edge to " ++ s.text
  | oneSidedSucc b s =>
    at_ b ++ "successor " ++ s.text ++ " does not have " ++ b.text ++ " as predecessor"
  | unknownPred b p => at_ b ++ "predecessor " ++ p.text ++ " not in function"
  | oneSidedPred b p =>
    at_ b ++ "predecessor " ++ p.text ++ " does not have " ++ b.text ++ " as successor"
  | misplacedPhi b v c => at_ b ++ "phi for " ++ v ++ " claims block " ++ c.text
  | missizedPhi b v n m =>
    at_ b ++ "phi for " ++ v ++ " has " ++ toString n ++ " operands but block has "
      ++ toString m ++ " preds"
  | dominatedEntry d => here ++ "entry has idom " ++ d.text
  | noIdom b => at_ b ++ "reachable block has no proper idom"
  | wrongIdom b d p =>
    at_ b ++ "idom " ++ d.text ++ " does not dominate predecessor " ++ p.text

namespace Graph

def isBlock (g : Graph) (b : BlockId) : Bool := b < g.blocks.size

/-- No defect if all is well. -/
def orDefect (ok : Bool) (d : Defect) : List Defect := if ok then [] else [d]

def entryDefects (g : Graph) : List Defect :=
  orDefect (g.entry = 0) (.wrongEntry (g.block 0).id)
    ++ orDefect (g.preds 0).isEmpty (.enteredEntry (g.preds 0).length)

/-- Return and exit are checked together, and only if both are set. -/
def exitDefects (g : Graph) : List Defect :=
  match g.ret, g.exit with
  | some r, some e =>
    if g.isBlock r && g.isBlock e then
      orDefect (g.hasEdge r e) (.returnMissesExit (g.block r).id (g.block e).id)
        ++ orDefect (g.succs e).isEmpty (.leftExit (g.succs e).length)
    else [.outOfRange]
  | _, _ => []

/-- Every edge out of a block is listed once and known to its target. -/
def succDefects (g : Graph) (b : BlockId) : (seen : List BlockId) → List BlockId → List Defect
  | _, [] => []
  | seen, s :: rest =>
    if g.isBlock s then
      orDefect (!seen.contains s) (.doubleEdge b (g.block s).id)
        ++ orDefect ((g.preds s).contains b) (.oneSidedSucc b (g.block s).id)
        ++ g.succDefects b (s :: seen) rest
    else .unknownSucc b s :: g.succDefects b seen rest

/-- Every edge into a block is known to its source. -/
def predDefects (g : Graph) (b : BlockId) (preds : List BlockId) : List Defect :=
  preds.flatMap fun p =>
    if g.isBlock p then orDefect (g.hasEdge p b) (.oneSidedPred b (g.block p).id)
    else [.unknownPred b p]

/-- Every phi belongs to its block and has one operand for every edge into it. -/
def phiDefects (b : BasicBlock) : List Defect :=
  b.phis.flatMap fun p =>
    orDefect (p.block = b.id) (.misplacedPhi b.id p.var.name p.block)
      ++ orDefect (p.operands.length = b.preds.length)
        (.missizedPhi b.id p.var.name p.operands.length b.preds.length)

def blockDefects (g : Graph) (index : Nat) (b : BasicBlock) : List Defect :=
  if b.id = index then
    g.succDefects b.id [] b.succs ++ g.predDefects b.id b.preds ++ phiDefects b
  else [.wrongNumber index b.id]

/-- The immediate dominator of a block dominates its reachable predecessors. -/
def idomDefects (g : Graph) (b : BlockId) : List Defect :=
  if b = g.entry then []
  else match g.idom b with
    | none => [.noIdom (g.block b).id]
    | some d =>
      if d = b then [.noIdom (g.block b).id]
      else (g.preds b).flatMap fun p =>
        orDefect (!g.isReachable p || g.dominates d p)
          (.wrongIdom (g.block b).id (g.block d).id (g.block p).id)

def dominanceDefects (g : Graph) (order : List BlockId) : List Defect :=
  (match g.idom g.entry with
    | some d => [.dominatedEntry (g.block d).id]
    | none => [])
    ++ order.flatMap g.idomDefects

/-- Everything that is wrong with a graph. Dominance is looked at only if all else is right. -/
def defects (g : Graph) : List Defect :=
  if g.blocks.isEmpty then [.noBlocks]
  else
    let first := g.entryDefects ++ g.exitDefects
    if first.contains .outOfRange then first
    else
      let found := first ++ g.numbered.flatMap fun (i, b) => g.blockDefects i b
      if found.isEmpty then g.order.elim [] g.dominanceDefects else found

/-- What verification says about a graph that is not as it should be. -/
def verify (g : Graph) : Option String :=
  match g.defects with
  | [] => none
  | ds =>
    some ("flow graph verification failed:\n  "
      ++ "\n  ".intercalate (ds.map (Defect.message g.name)))

end Graph

end FlowCheck
