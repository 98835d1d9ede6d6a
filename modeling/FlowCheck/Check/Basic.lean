import FlowCheck.Check.Event
import FlowCheck.Diagnostic.Bag
import FlowCheck.Flow.Build
import FlowCheck.Flow.Pipeline
import FlowCheck.Parse.File
import FlowCheck.Resolve.File

/-!
# Checking a source file

A check parses a file, resolves its names and analyzes the flow of every function. A file that does
not parse is not resolved, and one whose names do not resolve is not analyzed.
-/
namespace FlowCheck

structure CheckOptions where
  warningsAsErrors : Bool := false
  passes : PassOptions := {}
  deriving DecidableEq, Repr, Inhabited

/-- A function with its graph, unless building the graph was aborted. -/
structure CheckedFunc where
  name : String
  graph : Option Graph

/-- Control can fall off the end of the body. -/
def CheckedFunc.endReachable (f : CheckedFunc) : Bool := f.graph.any Graph.endReachable

/-- All that a check found out. -/
structure Check where
  fileName : String
  file : File
  bag : Bag
  /-- What name resolution found out, if the file parses. -/
  resolution : Option Resolution := none
  /-- The flow of functions has been analyzed. -/
  analyzed : Bool := false
  /-- The functions in the order of their declarations. -/
  funcs : List CheckedFunc := []
  /-- The numbers of the nodes that cannot be reached. -/
  dead : List Nat := []
  /-- Variables that some reachable node reads. -/
  used : List Var := []
  /-- Variables with more than one definition. -/
  reassigned : List Var := []
  /-- Graphs written out by the passes. -/
  dump : String := ""
  events : List Event := []
  /-- Why the check itself failed: a graph did not pass verification. -/
  failure : Option String := none
  /-- A step that has no answer was asked for one: the check would not have come to an end. -/
  crashed : Bool := false

namespace Check

/-- The text holds the part somewhere. -/
def mentions (part : List Char) : (text : List Char) → Bool
  | [] => part.isEmpty
  | c :: rest => part.isPrefixOf (c :: rest) || mentions part rest

/-- The code of a message of name resolution is read off its words. -/
def resolveCode (message : String) : Code :=
  let text := message.toList
  if "undefined:".toList.isPrefixOf text || mentions " undefined (".toList text then .undefined
  else if mentions "redeclared".toList text then .redeclared
  else if "cannot assign".toList.isPrefixOf text then .notAssignable
  else if "is not an error type".toList.isSuffixOf text then .notAnErrorType
  else .invalidStatement

def ofParse (r : ParseReport) : Diagnostic :=
  ⟨.parser, .error, .malformed, r.pos, r.complaint.message⟩

def ofResolve (r : ResolveReport) : Diagnostic :=
  ⟨.resolve, .error, resolveCode r.fault.message, r.pos, r.fault.message⟩

def log (c : Check) (e : Event) : Check := { c with events := c.events ++ [e] }

def addFunc (c : Check) (name : String) (graph : Option Graph) : Check :=
  { c with funcs := c.funcs ++ [⟨name, graph⟩] }

def report (c : Check) (ds : List Diagnostic) : Check := { c with bag := c.bag.reportAll ds }

/-- Runs the passes over the graph of a function. -/
def analyze (options : PassOptions) (facts : Facts) (name : String) (c : Check) (g : Graph) :
    Check :=
  let run := Pass.runAll options (Pass.standard facts) { analysis := .ofGraph g }
  let a := run.analysis
  let c := { c.report a.diagnostics with
    used := c.used ++ a.used
    reassigned := c.reassigned ++ a.reassigned
    dump := c.dump ++ run.dump
    crashed := c.crashed || a.misfit }
  match run.failure with
  | some e =>
    { c.addFunc name none with
      failure := c.failure.or (some ("func " ++ name ++ ": " ++ e)) }
  | none =>
    (c.addFunc name (some a.graph)).log
      (.analyzed name a.graph.blocks.size a.graph.phiCount a.graph.endReachable)

/-- Builds and analyzes the graph of a function. -/
def checkFunc (options : PassOptions) (facts : Facts) (c : Check) (d : FuncDecl) : Check :=
  let name := d.name.text
  let built := Construction.ofFunc facts d
  let c := (c.log (.analyzing name)).report built.diagnostics
  let c := { c with dead := c.dead ++ built.dead }
  match built.outcome with
  | .error .jumpOutOfFinally => (c.addFunc name none).log (.aborted name)
  | .error _ => { c.addFunc name none with crashed := true }
  | .ok g => c.analyze options facts name g

/-- The analysis of all functions, once names are resolved. -/
def checkFuncs (options : PassOptions) (r : Resolution) (c : Check) : Check :=
  let c := c.file.funcs.foldl (checkFunc options r.facts) { c with analyzed := true }
  if c.failure.isSome then c
  else c.log (.completed c.fileName c.funcs.length c.bag.errors c.bag.warnings)

/-- Name resolution and what follows it, once the file is parsed. -/
def resolve (options : PassOptions) (c : Check) : Check :=
  let r := Resolution.ofFile c.file
  let c := { c.report (r.reports.map ofResolve) with resolution := some r }
  match r.reports with
  | [] => c.checkFuncs options r
  | first :: _ => c.log (.resolutionFailed c.fileName first.render)

def ofSource (options : CheckOptions) (source : Source) : Check :=
  let parsed := Parsed.ofSource source
  let c : Check :=
    { fileName := source.file
      file := parsed.file
      bag := { warningsAsErrors := options.warningsAsErrors : Bag }.reportAll
        (parsed.reports.map ofParse) }
  if 0 < c.bag.errors then c.log (.parseFailed source.file c.bag.errors)
  else (c.log (.parsed source.file parsed.file.decls.length)).resolve options.passes

def hasErrors (c : Check) : Bool := 0 < c.bag.errors

/-- The function of a name. -/
def func? (c : Check) (name : String) : Option CheckedFunc := c.funcs.find? fun f => f.name = name

def isDead (c : Check) (id : Nat) : Bool := c.dead.contains id

/-- The variables that the file declares, in source order. -/
def vars (c : Check) : List Var :=
  c.resolution.elim [] fun r =>
    c.file.nodes.filterMap fun
      | .expr (.ident name) => r.definedVar? name
      | _ => none

def isUsed (c : Check) (v : Var) : Bool := c.used.contains v

/-- The variable has at most one definition. -/
def isSingleAssignment (c : Check) (v : Var) : Bool := !c.reassigned.contains v

end Check

end FlowCheck
