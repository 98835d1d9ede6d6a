import FlowCheck.Token.Lexer
import FlowCheck.Tree.Basic

/-!
# The state of the parser

The parser reads lexemes one at a time. What it reads and what it reports goes into one history, so
that the faults of the lexer stand among its own where they were noticed. The tenth fault ends the
parse: one more report says so, the current token becomes the end of file, and nothing is read or
reported after that.
-/
namespace FlowCheck

inductive ParseFault where
  | expected (token : Token)
  | expectedIdent
  | expectedDecl
  | expectedType
  | expectedOperand
  | expectedTest
  | badElse
  | bareTry
  deriving DecidableEq, Repr

def ParseFault.message : ParseFault → String
  | expected token => "expected " ++ token.text
  | expectedIdent => "expected identifier"
  | expectedDecl => "expected declaration"
  | expectedType => "expected type"
  | expectedOperand => "expected operand"
  | expectedTest => "expected for loop condition"
  | badElse => "else must be followed by if or statement block"
  | bareTry => "try statement without catch or finally"

/-- Everything that reading a file can report. -/
inductive Complaint where
  | lexical (fault : LexFault)
  | grammatical (fault : ParseFault)
  | tooMany
  deriving DecidableEq, Repr

def Complaint.message : Complaint → String
  | lexical fault => fault.message
  | grammatical fault => fault.message
  | tooMany => "too many errors; aborting parse"

structure ParseReport where
  pos : Pos
  complaint : Complaint
  deriving DecidableEq, Repr

def ParseReport.render (r : ParseReport) : String := r.pos.render ++ ": " ++ r.complaint.message

def LexReport.toParseReport (r : LexReport) : ParseReport := ⟨r.pos, .lexical r.fault⟩

/-- What happens while a file is read: a lexeme is taken, or something is reported. -/
inductive ParseEvent where
  | read (lexeme : Lexeme)
  | report (r : ParseReport)

/-- A lexeme brings along what was noticed while it was scanned. -/
def ParseEvent.reports : ParseEvent → List ParseReport
  | read l => l.reports.map LexReport.toParseReport
  | report r => [r]

namespace Parse

/-- The number of faults after which a parse is given up. -/
def faultLimit : Nat := 10

structure State where
  current : Lexeme
  rest : List Lexeme
  /-- Everything that has happened, newest first. -/
  history : List ParseEvent := []
  /-- The number of the parser's own faults. -/
  faults : Nat := 0
  first : Option ParseReport := none
  aborted : Bool := false

end Parse

/-- A computation that reads lexemes; it has no outcome if it does not come to an end. One that
needs an argument is a reader, and recursive ones are called through `run`. -/
abbrev Parser := StateT Parse.State Option

namespace Parse

/-- Everything reported so far, oldest first. -/
def State.reports (s : State) : List ParseReport := s.history.reverse.flatMap ParseEvent.reports

/-- Stands on the first lexeme. -/
def State.ofLexemes : List Lexeme → State
  | [] => { current := ⟨.eof, "", Pos.none, []⟩, rest := [] }
  | l :: rest => { current := l, rest, history := [.read l] }

/-- Moves to the next lexeme; the last one stays. -/
def State.next (s : State) : State :=
  match s.rest with
  | [] => s
  | l :: rest => { s with current := l, rest, history := .read l :: s.history }

/-- Reports a fault, unless the parse has been given up; the last one allowed gives it up. -/
def State.fault (s : State) (pos : Pos) (fault : ParseFault) : State :=
  if s.aborted then s
  else
    let report : ParseReport := ⟨pos, .grammatical fault⟩
    let s := { s with
      history := .report report :: s.history
      faults := s.faults + 1
      first := s.first.or (some report) }
    if s.faults < faultLimit then s
    else { s with
      history := .report ⟨pos, .tooMany⟩ :: s.history
      aborted := true
      current := { s.current with token := .eof } }

def token : Parser Token := return (← get).current.token

def pos : Parser Pos := return (← get).current.pos

def isAborted : Parser Bool := return (← get).aborted

def next : Parser Unit := modify State.next

def fault (f : ParseFault) : Parser Unit := modify fun s => s.fault s.current.pos f

def faultAt (p : Pos) (f : ParseFault) : Parser Unit := modify fun s => s.fault p f

/-- Consumes the current token if it is `t`, and says whether it was. -/
def got (t : Token) : Parser Bool := do
  if (← token) = t then
    next
    return true
  else return false

/-- The tokens at which reading resumes after a fault. -/
def isStop : Token → Bool
  | .semi | .rbrace | .rparen | .rbrack | .eof => true
  | .keyword k =>
    match k with
    | .kwPackage | .kwErrordomain | .kwVar | .kwFunc | .kwIf | .kwFor | .kwSwitch | .kwTry
    | .kwThrow | .kwReturn | .kwBreak | .kwContinue => true
    | _ => false
  | _ => false

def skipToStop : Parser Unit := do
  if isStop (← token) then return
  else
    next
    (skipToStop.run ·)
partial_fixpoint

/-- Skips to a token at which reading can resume, and over it. -/
def recover : Parser Unit := do
  skipToStop
  if (← token) ≠ .eof then next

/-- Consumes the token `t`; any other is a fault, after which the parser recovers. -/
def want (t : Token) : Parser Unit := do
  if ← got t then return
  else
    fault (.expected t)
    recover

/-- Consumes the end of a statement, which may be left out before a closing brace. -/
def semi : Parser Unit := do
  if (← token) ≠ .rbrace then want .semi

/-- The name that stands in for one that is missing. -/
def placeholder (p : Pos) : Ident := ⟨{ pos := p }, "_"⟩

def ident : Parser Ident := do
  let l := (← get).current
  if l.token = .name then
    next
    return ⟨{ pos := l.pos }, l.text⟩
  else
    fault .expectedIdent
    return placeholder l.pos

/-- What `p` reads, unless the current token is one of those that stand where it is left out. -/
def unlessAt {α : Type} (out : Token → Bool) (p : Parser α) : Parser (Option α) := do
  if out (← token) then return none
  else return some (← p)

/-- What `p` reads after the token `t`, if that stands here. -/
def after {α : Type} (t : Token) (p : Parser α) : Parser (Option α) := do
  if ← got t then return some (← p)
  else return none

end Parse

end FlowCheck
