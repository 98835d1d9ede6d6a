import FlowCheck.Command.Flag

/-!
# Command lines

A command line names a command, among flags that may stand before and after it, and gives it
arguments. A misspelt command gets suggestions.
-/
namespace FlowCheck

inductive Command where
  | check
  | cfg
  | tokens
  | ast
  | version
  | help
  | completion
  deriving DecidableEq, Repr

namespace Command

def name : Command → String
  | check => "check"
  | cfg => "cfg"
  | tokens => "tokens"
  | ast => "ast"
  | version => "version"
  | help => "help"
  | completion => "completion"

def all : List Command := [check, cfg, tokens, ast, version, help, completion]

def ofName? (s : String) : Option Command := all.find? fun c => c.name = s

/-- The flags of all commands. -/
def sharedFlags : List Flag :=
  [⟨"config", none, .text⟩, ⟨"verbose", some 'v', .switch⟩,
    ⟨"warnings-as-errors", none, .switch⟩, ⟨"jobs", some 'j', .number⟩,
    ⟨"verify", none, .switch⟩, ⟨"dump-before", none, .text⟩, ⟨"dump-after", none, .text⟩,
    ⟨"dump-func", none, .text⟩]

def formatFlag : Flag := ⟨"format", some 'f', .text⟩

def ownFlags : Command → List Flag
  | check => [formatFlag, ⟨"max-errors", none, .number⟩]
  | cfg => [formatFlag, ⟨"func", none, .text⟩]
  | ast => [formatFlag]
  | _ => []

def helpFlag : Flag := ⟨"help", some 'h', .switch⟩

/-! ### Suggestions -/

/-- The next row of the table of edit distances, from the left: `left` is the distance found last,
`above` the one above it. -/
def nextRow (b : UInt8) (left above : Nat) : List UInt8 → List Nat → List Nat
  | c :: cs, d :: ds =>
    let here := if b = c then above else 1 + min (min left d) above
    here :: nextRow b here d cs ds
  | _, _ => []

/-- The number of bytes to insert, delete or replace to get from `s` to `t`. -/
def editDistance (s t : List UInt8) : Nat :=
  let start := List.range (t.length + 1)
  let last := s.foldl (fun row b =>
    match row with
    | d :: ds => (d + 1) :: nextRow b (d + 1) d t ds
    | [] => []) start
  last.getLast?.getD 0

def resembles (typed name : String) : Bool :=
  let typed := LowerCase.ofText typed
  editDistance typed.toUTF8.toList name.toUTF8.toList ≤ 2
    || typed.toList.isPrefixOf name.toList

/-- The commands that a misspelt name may stand for. -/
def suggestions (typed : String) : List String :=
  ([check, cfg, tokens, ast, version, completion].map name).filter (resembles typed)

end Command

inductive UsageError where
  | flag (e : FlagError)
  | unknownCommand (typed : String)
  | unknownSubcommand (typed : String) (command : Command)
  | notExactly (wanted received : Nat)
  | tooFew (wanted received : Nat)
  deriving DecidableEq, Repr

def UsageError.message : UsageError → String
  | flag e => e.message
  | unknownCommand typed =>
    "unknown command " ++ Quoted.text typed ++ " for \"kestrelc\""
      ++ match Command.suggestions typed with
        | [] => ""
        | names => "\n\nDid you mean this?\n" ++ String.join (names.map fun n => "\t" ++ n ++ "\n")
  | unknownSubcommand typed command =>
    "unknown command " ++ Quoted.text typed ++ " for \"kestrelc " ++ command.name ++ "\""
  | notExactly wanted received =>
    "accepts " ++ toString wanted ++ " arg(s), received " ++ toString received
  | tooFew wanted received =>
    "requires at least " ++ toString wanted ++ " arg(s), only received " ++ toString received

/-- A command with its flags and arguments. -/
structure Invocation where
  command : Command
  flags : Flag.Parsed

namespace Invocation

def args (i : Invocation) : List String := i.flags.args

/-- The text given to a flag, if it is given. -/
def text? (i : Invocation) (flag : String) : Option String :=
  (i.flags.get? flag).map Setting.toText

def isSet (i : Invocation) (flag : String) : Bool := ((i.flags.get? flag).getD .null).toFlag

/-- The number of arguments is right for the command. -/
def checkArgs (command : Command) (args : List String) : Except UsageError Unit :=
  match command with
  | .check => if args.isEmpty then .error (.tooFew 1 0) else .ok ()
  | .cfg | .tokens | .ast =>
    if args.length = 1 then .ok () else .error (.notExactly 1 args.length)
  | .version | .completion =>
    match args with
    | [] => .ok ()
    | arg :: _ => .error (.unknownSubcommand arg command)
  | .help => .ok ()

/-- The command that arguments name, and the arguments without its name. -/
def findCommand (args : List String) : Except UsageError (Command × List String) :=
  match Flag.words Command.sharedFlags args with
  | [] => .ok (.help, args)
  | word :: _ =>
    match Command.ofName? word with
    | some c => .ok (c, Flag.dropWord Command.sharedFlags word args)
    | none => .error (.unknownCommand word)

/-- Reads a command line. A request for help wins over wrong arguments, but not over wrong flags. -/
def ofArgs (args : List String) : Except UsageError Invocation := do
  let (command, rest) ← findCommand args
  let flags := command.ownFlags ++ Command.helpFlag :: Command.sharedFlags
  match Flag.parse flags rest with
  | .error e => throw (.flag e)
  | .ok parsed =>
    if ((parsed.get? "help").getD .null).toFlag then return ⟨.help, parsed⟩
    else
      checkArgs command parsed.args
      return ⟨command, parsed⟩

end Invocation

end FlowCheck
