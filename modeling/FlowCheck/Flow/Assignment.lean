import FlowCheck.Diagnostic.Basic
import FlowCheck.Flow.Phis

/-!
# Definite assignment

Every definition gets a version, every read is resolved to the version that reaches it, and phis
merge versions where paths meet. A read is reported if no version reaches it, or if following its
version back through phis leads to a reachable edge on which the variable was never assigned.
-/
namespace FlowCheck

/-- A graph with what definite assignment found out about its variables. -/
structure Analysis where
  graph : Graph
  /-- Variables read in reachable blocks. -/
  used : List Var := []
  /-- Variables with more than one version. -/
  reassigned : List Var := []
  /-- Findings in the order in which they were made. -/
  diagnostics : List Diagnostic := []
  /-- A phi was to be given an operand that it has no place for. -/
  misfit : Bool := false

namespace Assignment

structure State where
  graph : Graph
  /-- The versions in effect, newest first; the first one of a variable is its current one. -/
  live : List Version := []
  /-- The variables of all versions made so far. -/
  made : List Var := []
  /-- Reads with the versions that they were resolved to, in the order of visiting. -/
  reads : List (Version × Use) := []
  used : List Var := []
  reassigned : List Var := []
  /-- Reads that may see an unassigned variable, each once, in the order of discovery. -/
  unassigned : List Use := []
  /-- A phi was to be given an operand that it has no place for. -/
  misfit : Bool := false

namespace State

def current? (s : State) (v : Var) : Option Version := s.live.find? fun ver => ver.var = v

/-- A new version of a variable; the second one of a variable makes it reassigned. -/
def push (s : State) (v : Var) (phi : Option PhiRef) : Version × State :=
  let count := s.made.count v
  let version : Version := ⟨v, count + 1, phi⟩
  (version, { s with
    live := version :: s.live
    made := v :: s.made
    reassigned := if 0 < count && !s.reassigned.contains v then s.reassigned ++ [v]
      else s.reassigned })

def report (s : State) (u : Use) : State :=
  if s.unassigned.contains u then s else { s with unassigned := s.unassigned ++ [u] }

def read (s : State) (u : Use) : State :=
  let s := { s with used := if s.used.contains u.var then s.used else s.used ++ [u.var] }
  match s.current? u.var with
  | some version => { s with reads := s.reads ++ [(version, u)] }
  | none => s.report u

def setPhi (s : State) (r : PhiRef) (f : Phi → Phi) : State :=
  { s with graph := s.graph.modifyBlock r.block fun b => { b with phis := b.phis.modify r.index f } }

/-- A phi makes a version of its variable. -/
def definePhi (s : State) (b : BlockId) (index : Nat) (v : Var) : State :=
  let (version, s) := s.push v (some ⟨b, index⟩)
  s.setPhi ⟨b, index⟩ fun p => { p with result := some version }

/-- A node first reads, then assigns. -/
def node (facts : Facts) (s : State) (n : Node) : State :=
  let s := (facts.uses n).foldl State.read s
  (facts.defs n).foldl (fun s v => (s.push v none).2) s

/-- Tells the phis of a successor which versions arrive from `b`. -/
def arrive (s : State) (b succ : BlockId) : State :=
  let target := s.graph.block succ
  match target.predIndex? b with
  | none => { s with misfit := s.misfit || !target.phis.isEmpty }
  | some i =>
    { s with
      graph := s.graph.modifyBlock succ fun block =>
        { block with phis := block.phis.map fun p =>
            { p with operands := p.operands.set i (s.current? p.var) } }
      misfit := s.misfit || target.phis.any fun p => p.operands.length ≤ i }

end State

/-- Renames a block and the blocks that it dominates; the versions made on the way go out of effect
at the end. -/
def block (facts : Facts) : (fuel : Nat) → State → BlockId → State
  | 0, s, _ => s
  | fuel + 1, s, b =>
    let depth := s.live.length
    let here := s.graph.block b
    let s := here.phis.zipIdx.foldl (fun s (p, i) => s.definePhi b i p.var) s
    let s := here.nodes.foldl (State.node facts) s
    let s := here.succs.foldl (fun s succ => s.arrive b succ) s
    let s := here.dominees.foldl (block facts fuel) s
    { s with live := s.live.drop (s.live.length - depth) }

/-- The phis that a phi merges versions of, directly or through others. -/
def sources (g : Graph) : (fuel : Nat) → (work seen : List PhiRef) → List PhiRef
  | 0, _, seen => seen
  | _, [], seen => seen
  | fuel + 1, r :: work, seen =>
    let next := ((g.phi? r).elim [] Phi.operands).filterMap fun o => o.bind Version.phi
    let fresh := next.foldl (fun found r =>
      if seen.contains r || found.contains r then found else r :: found) []
    sources g fuel (fresh ++ work) (fresh ++ seen)

/-- Some reachable edge brings no version to the phi. -/
def hasGap (g : Graph) (p : Phi) : Bool :=
  (p.operands.zip (g.preds p.block)).any fun (o, pred) => o.isNone && g.isReachable pred

/-- Whether a version may stand for no assignment at all. -/
def mayBeUnassigned (g : Graph) (v : Version) : Bool :=
  match v.phi with
  | none => false
  | some r => (sources g (g.phiCount + 1) [r] [r]).any fun r => (g.phi? r).any (hasGap g)

/-- Reports the reads whose version may stand for no assignment. -/
def propagate (s : State) : State :=
  s.reads.foldl (fun s (version, u) =>
    if mayBeUnassigned s.graph version then s.report u else s) s

/-- A read of an unassigned parameter is a warning, any other an error. -/
def finding (u : Use) : Diagnostic :=
  if u.var.kind.isParam then
    ⟨.flow, .warning, .unassignedParam, u.pos,
      "use of possibly unassigned parameter `" ++ u.var.name ++ "`"⟩
  else
    ⟨.flow, .error, .unassignedLocal, u.pos,
      "use of possibly unassigned local variable `" ++ u.var.name ++ "`"⟩

def run (g : Graph) (facts : Facts) : State :=
  propagate (block facts (g.blocks.size + 1) { graph := g } g.entry)

end Assignment

namespace Analysis

def ofGraph (g : Graph) : Analysis := { graph := g }

/-- Adds variables that are not yet listed. -/
def merge (vars more : List Var) : List Var :=
  vars ++ more.filter fun v => !vars.contains v

/-- Checks that every variable is assigned before it is read. -/
def checkAssignments (facts : Facts) (a : Analysis) : Analysis :=
  let s := Assignment.run a.graph facts
  { graph := s.graph
    used := merge a.used s.used
    reassigned := merge a.reassigned s.reassigned
    diagnostics := a.diagnostics ++ s.unassigned.map Assignment.finding
    misfit := a.misfit || s.misfit }

/-- Some reachable node reads the variable. -/
def isUsed (a : Analysis) (v : Var) : Bool := a.used.contains v

/-- The variable has at most one definition. -/
def isSingleAssignment (a : Analysis) (v : Var) : Bool := !a.reassigned.contains v

end Analysis

end FlowCheck
