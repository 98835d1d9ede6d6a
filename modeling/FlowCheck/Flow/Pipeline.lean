import FlowCheck.Flow.Assignment
import FlowCheck.Flow.Print
import FlowCheck.Flow.Verify

/-!
# Running passes

A pass is a named step of the analysis of a graph. The runner can verify the graph around every
pass and write it out before or after chosen ones.
-/
namespace FlowCheck

structure Pass where
  name : String
  run : Analysis → Analysis

namespace Pass

/-- The passes that follow the construction of a graph, in order. -/
def standard (facts : Facts) : List Pass :=
  [⟨"dom", fun a => { a with graph := a.graph.computeDominance }⟩,
    ⟨"frontier", fun a => { a with graph := a.graph.computeFrontiers }⟩,
    ⟨"phi", fun a => { a with graph := a.graph.insertPhis facts }⟩,
    ⟨"rename", Analysis.checkAssignments facts⟩]

end Pass

/-- What the runner does around passes; a pattern is the name of a pass or `*` for all. -/
structure PassOptions where
  dumpBefore : String := ""
  dumpAfter : String := ""
  /-- Only the graph of this function is written out, or all if it is empty. -/
  dumpFunc : String := ""
  verify : Bool := false
  deriving DecidableEq, Repr, Inhabited

namespace PassOptions

def selects (pattern name : String) : Bool := pattern = "*" || pattern = name

/-- The graph under a title, if it is to be written out. -/
def dump (o : PassOptions) (pattern moment pass : String) (g : Graph) : String :=
  if selects pattern pass && (o.dumpFunc = "" || o.dumpFunc = g.name) then
    "--- " ++ moment ++ " " ++ pass ++ " (" ++ g.name ++ ") ---\n" ++ g.text ++ "\n"
  else ""

/-- What verification finds at a moment, if it is asked for. -/
def check (o : PassOptions) (moment pass : String) (g : Graph) : Option String :=
  if o.verify then g.verify.map fun e => "verify " ++ moment ++ " " ++ pass ++ ": " ++ e else none

end PassOptions

/-- Where a run of passes ended: the analysis so far, what was written out, and why it stopped. -/
structure PassRun where
  analysis : Analysis
  dump : String := ""
  failure : Option String := none

namespace Pass

def runAll (o : PassOptions) : List Pass → PassRun → PassRun
  | [], r => r
  | p :: rest, r =>
    let r := { r with dump := r.dump ++ o.dump o.dumpBefore "before" p.name r.analysis.graph }
    match o.check "before" p.name r.analysis.graph with
    | some e => { r with failure := some e }
    | none =>
      let r := { r with analysis := p.run r.analysis }
      match o.check "after" p.name r.analysis.graph with
      | some e => { r with failure := some e }
      | none =>
        runAll o rest { r with
          dump := r.dump ++ o.dump o.dumpAfter "after" p.name r.analysis.graph }

end Pass

end FlowCheck
