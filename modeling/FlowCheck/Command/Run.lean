import FlowCheck.Check.Basic
import FlowCheck.Command.Config
import FlowCheck.Diagnostic.Report
import FlowCheck.Tree.Document
import FlowCheck.Tree.Dump

/-!
# Running commands

A run of a command is a function of its arguments and the world that it sees. It writes to two
streams and may end in an error; what was written before the error stays.
-/
namespace FlowCheck

inductive CommandError where
  /-- Errors were found, and they have been written. -/
  | checkFailed
  | usage (e : UsageError)
  | config (e : ConfigError)
  | settings (e : SettingsError)
  | file (e : FileError)
  | unknownFormat (text wanted : String)
  | noFunction (path name : String)
  | broken (path cause : String)
  deriving DecidableEq, Repr

def CommandError.message : CommandError → String
  | checkFailed => "check failed"
  | usage e => e.message
  | config e => e.message
  | settings e => e.message
  | file e => e.message
  | unknownFormat text wanted =>
    "unknown format " ++ Quoted.text text ++ " (want " ++ wanted ++ ")"
  | noFunction path name => path ++ ": no function " ++ name
  | broken path cause => path ++ ": " ++ cause

structure Output where
  stdout : String := ""
  stderr : String := ""
  deriving DecidableEq, Repr

/-- A run of a command; its output outlives an error. -/
abbrev Session := EStateM CommandError Output

namespace Session

def print (s : String) : Session Unit := modify fun o => { o with stdout := o.stdout ++ s }

def printError (s : String) : Session Unit := modify fun o => { o with stderr := o.stderr ++ s }

def liftWith (wrap : ε → CommandError) : Except ε α → Session α
  | .ok a => return a
  | .error e => throw (wrap e)

/-! ### Checking files -/

/-- Checks a file; graphs that passes write out go to the error stream. -/
def checkFile (w : World) (s : Settings) (path : String) : Session Check := do
  let source ← liftWith .file (w.source path)
  let c := Check.ofSource ⟨s.warningsAsErrors, s.passes⟩ source
  printError c.dump
  match c.failure with
  | some cause => throw (.broken path cause)
  | none => return c

def reportText (s : Settings) (c : Check) : String :=
  match s.format with
  | .yaml => c.bag.yaml
  | .text => c.bag.text s.maxErrors

/-- Checks files one after the other and says whether one of them has errors. -/
def checkFiles (w : World) (s : Settings) : List String → Session Bool
  | [] => return false
  | path :: rest => do
    let c ← checkFile w s path
    print (reportText s c)
    let failed ← checkFiles w s rest
    return c.hasErrors || failed

def runCheck (w : World) (s : Settings) (args : List String) : Session Unit := do
  if ← checkFiles w s args then throw .checkFailed

/-! ### Writing graphs -/

inductive GraphFormat where
  | text
  | yaml
  | dot
  deriving DecidableEq, Repr

def graphFormat : String → Except CommandError GraphFormat
  | "text" => .ok .text
  | "yaml" => .ok .yaml
  | "dot" => .ok .dot
  | other => .error (.unknownFormat other "text, yaml or dot")

/-- A graph as text, set off from what stands before it. -/
def graphText (format : GraphFormat) (isFirst : Bool) (g : Graph) : String :=
  match format with
  | .text => (if isFirst then "" else "\n") ++ g.text
  | .yaml => (if isFirst then "" else "---\n") ++ g.yaml
  | .dot => g.dot

def printGraphs (format : GraphFormat) (isFirst : Bool) : List CheckedFunc → Session Unit
  | [] => return
  | f :: rest => do
    match f.graph with
    | none => printError (f.name ++ ": analysis aborted\n")
    | some g => print (graphText format isFirst g)
    printGraphs format false rest

/-- The functions to write: all, or the one of a name. -/
def selectFuncs (c : Check) (name : String) : Except CommandError (List CheckedFunc) :=
  if name = "" then .ok c.funcs
  else match c.func? name with
    | some f => .ok [f]
    | none => .error (.noFunction c.fileName name)

def showGraphs (w : World) (s : Settings) (format : GraphFormat) (name path : String) :
    Session Unit := do
  let c ← checkFile w s path
  if !c.analyzed then
    printError (c.bag.text s.maxErrors)
    throw .checkFailed
  let funcs ← liftWith (fun e => e) (selectFuncs c name)
  printGraphs format true funcs

/-! ### Writing tokens -/

/-- Fills a text up with blanks on its right. -/
def padded (width : Nat) (s : String) : String :=
  s ++ String.ofList (List.replicate (width - s.length) ' ')

def tokenRow (pos token text : String) : String :=
  padded 20 pos ++ " " ++ padded 12 token ++ " " ++ text ++ "\n"

def escapeChar : Char → String
  | '\n' => "\\n"
  | '\t' => "\\t"
  | '\r' => "\\r"
  | '\\' => "\\\\"
  | '"' => "\\\""
  | '\x00' => "\\0"
  | c => c.toString

/-- The text of a token in quotation marks. -/
def tokenText (s : String) : String := "\"" ++ String.join (s.toList.map escapeChar) ++ "\""

def dashes (n : Nat) : String := String.ofList (List.replicate n '-')

def showTokens (w : World) (path : String) : Session Unit := do
  let source ← liftWith .file (w.source path)
  let lexemes := Lexer.scan source
  print (tokenRow "POSITION" "TOKEN" "LITERAL")
  print (tokenRow (dashes 20) (dashes 12) (dashes 20))
  lexemes.forM fun l => print (tokenRow l.pos.render l.token.text (tokenText l.text))
  let reports := lexemes.flatMap Lexeme.reports
  reports.forM fun r =>
    printError (path ++ ":" ++ toString r.pos.line ++ ":" ++ toString r.pos.col ++ ": "
      ++ r.fault.message ++ "\n")
  if !reports.isEmpty then throw .checkFailed

/-! ### Writing trees -/

/-- The tree of a file, as far as it could be parsed, after the errors. -/
def showTree (w : World) (asJson : Bool) (path : String) : Session Unit := do
  let source ← liftWith .file (w.source path)
  let parsed := Parsed.ofSource source
  parsed.reports.forM fun r => printError (r.render ++ "\n")
  let root := Node.file parsed.file
  print (if asJson then root.json fun _ => false else root.dump fun _ => false)
  if !parsed.reports.isEmpty then throw .checkFailed

/-! ### Commands -/

def usageText : String :=
  "Usage:\n  kestrelc check <file>...\n  kestrelc cfg <file>\n  kestrelc tokens <file>\n"
    ++ "  kestrelc ast <file>\n  kestrelc version\n"

def versionText : String := "kestrelc version 0.1.0-dev\n"

def runCommand (w : World) (i : Invocation) (file : Setting) : Session Unit := do
  let settings := Config.settings w i file
  let format := (i.text? "format").getD "text"
  let path := i.args.headD ""
  match i.command with
  | .check => runCheck w (← liftWith .settings settings) i.args
  | .cfg =>
    let format ← liftWith (fun e => e) (graphFormat format)
    showGraphs w (← liftWith .settings settings) format ((i.text? "func").getD "") path
  | .tokens => showTokens w path
  | .ast =>
    if format = "text" || format = "json" then showTree w (format = "json") path
    else throw (.unknownFormat format "text or json")
  | .version => print versionText
  | .help | .completion => print usageText

/-- Reads the command line and the settings, then does what was asked. -/
def perform (w : World) (args : List String) : Session Unit := do
  let i ← liftWith .usage (Invocation.ofArgs args)
  match i.command with
  | .help | .completion => print usageText
  | _ =>
    let (file, found) ← liftWith .config (Config.load w i)
    if let some path := found then
      if i.isSet "verbose" then printError ("Using config file: " ++ path ++ "\n")
    runCommand w i file

end Session

/-- How a run of a command ended. -/
structure Outcome where
  output : Output
  failure : Option CommandError

/-- Runs a command line. -/
def Command.run (w : World) (args : List String) : Outcome :=
  match Session.perform w args {} with
  | .ok _ output => ⟨output, none⟩
  | .error e output => ⟨output, some e⟩

end FlowCheck
