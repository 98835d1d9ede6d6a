import FlowCheck.Settings.Value
import FlowCheck.Text.Quoted

/-!
# Flags

Flags are written `--name=value` or `--name value`, or with a single letter `-n=value`, `-nvalue` or
`-n value`. A switch needs no value, and letters of switches can be run together. Flags and other
arguments may mix; `--` ends the flags.
-/
namespace FlowCheck

inductive FlagType where
  | switch
  | number
  | text
  deriving DecidableEq, Repr

structure Flag where
  name : String
  letter : Option Char := none
  type : FlagType
  deriving DecidableEq, Repr

/-- A flag as it is written in messages. -/
def Flag.label (f : Flag) : String :=
  f.letter.elim ("--" ++ f.name) fun c => "-" ++ c.toString ++ ", --" ++ f.name

inductive FlagError where
  | malformed (arg : String)
  | unknown (name : String)
  | unknownLetter (letters : String)
  | noValue (arg : String)
  | noLetterValue (letters : String)
  | invalid (flag : Flag) (value cause : String)
  deriving DecidableEq, Repr

/-- The first byte of a row of letters, as a character in quotation marks. -/
def FlagError.firstByte (letters : String) : String :=
  Quoted.char (Char.ofNat ((letters.toUTF8.toList.head?.getD 0).toNat))

def FlagError.message : FlagError → String
  | malformed arg => "bad flag syntax: " ++ arg
  | unknown name => "unknown flag: --" ++ name
  | unknownLetter letters =>
    "unknown shorthand flag: " ++ firstByte letters ++ " in -" ++ letters
  | noValue arg => "flag needs an argument: " ++ arg
  | noLetterValue letters =>
    "flag needs an argument: " ++ firstByte letters ++ " in -" ++ letters
  | invalid flag value cause =>
    "invalid argument " ++ Quoted.text value ++ " for " ++ Quoted.text flag.label ++ " flag: "
      ++ cause

/-- The value that a text gives to a flag. -/
def Flag.read (f : Flag) (value : String) : Except FlagError (String × Setting) :=
  match f.type with
  | .text => .ok (f.name, .text value)
  | .switch =>
    match Boolean.parse? value with
    | some b => .ok (f.name, .flag b)
    | none =>
      .error (.invalid f value
        ("strconv.ParseBool: parsing " ++ Quoted.text value ++ ": invalid syntax"))
  | .number =>
    match Integer.parse value with
    | .ok z => .ok (f.name, .int z)
    | .error e =>
      .error (.invalid f value
        ("strconv.ParseInt: parsing " ++ Quoted.text value ++ ": " ++ e.message))

namespace Flag

/-- What an argument means to a set of flags. -/
inductive Reading where
  | plain
  | stop
  | sets (values : List (String × Setting))
  /-- After some values, a flag takes the next argument; without one, there is an error. -/
  | wants (values : List (String × Setting)) (flag : Flag) (otherwise : FlagError)

/-- An argument `--name` or `--name=value`. -/
def readLong (flags : List Flag) (arg : String) (cs : List Char) : Except FlagError Reading :=
  let name := String.ofList (cs.takeWhile (· ≠ '='))
  if cs.head?.all fun c => c = '-' || c = '=' then .error (.malformed arg)
  else match flags.find? fun f => f.name = name with
    | none => .error (.unknown name)
    | some f =>
      match cs.dropWhile (· ≠ '=') with
      | _ :: value => return .sets [← f.read (String.ofList value)]
      | [] =>
        if f.type = .switch then .ok (.sets [(f.name, .flag true)])
        else .ok (.wants [] f (.noValue arg))

/-- Letters after a single dash. Options of a test runner are passed over. -/
def readLetters (flags : List Flag) (done : List (String × Setting)) :
    List Char → Except FlagError Reading
  | [] => .ok (.sets done)
  | c :: rest =>
    if "test.".toList.isPrefixOf (c :: rest) then .ok (.sets done)
    else match flags.find? fun f => f.letter = some c with
      | none => .error (.unknownLetter (String.ofList (c :: rest)))
      | some f =>
        match rest with
        | '=' :: d :: value => return .sets (done ++ [← f.read (String.ofList (d :: value))])
        | _ =>
          if f.type = .switch then readLetters flags (done ++ [(f.name, .flag true)]) rest
          else if rest.isEmpty then .ok (.wants done f (.noLetterValue c.toString))
          else return .sets (done ++ [← f.read (String.ofList rest)])

def readArg (flags : List Flag) (arg : String) : Except FlagError Reading :=
  match arg.toList with
  | ['-', '-'] => .ok .stop
  | '-' :: '-' :: cs => readLong flags arg cs
  | '-' :: c :: cs => readLetters flags [] (c :: cs)
  | _ => .ok .plain

/-- The values given to flags, in order, and the other arguments. -/
structure Parsed where
  values : List (String × Setting) := []
  args : List String := []

def parse (flags : List Flag) : List String → Except FlagError Parsed
  | [] => .ok {}
  | arg :: rest => do
    match ← readArg flags arg with
    | .stop => return { args := rest }
    | .plain =>
      let p ← parse flags rest
      return { p with args := arg :: p.args }
    | .sets values =>
      let p ← parse flags rest
      return { p with values := values ++ p.values }
    | .wants values f otherwise =>
      match rest with
      | [] => throw otherwise
      | value :: rest =>
        let v ← f.read value
        let p ← parse flags rest
        return { p with values := values ++ v :: p.values }

/-- The value given to a flag last. -/
def Parsed.get? (p : Parsed) (name : String) : Option Setting := p.values.reverse.lookup name

/-! ### Finding words among flags -/

/-- The argument takes the next one for its value. A flag that is not known is taken to do so. -/
def takesNext (flags : List Flag) (arg : String) : Bool :=
  match arg.toList with
  | '-' :: '-' :: cs =>
    !cs.contains '=' && !flags.any fun f => f.name.toList = cs && f.type = .switch
  | ['-', c] =>
    c ≠ '=' && c.utf8Size = 1 && !flags.any fun f => f.letter = some c && f.type = .switch
  | _ => false

def isWord (arg : String) : Bool := arg ≠ "" && arg.toList.head? ≠ some '-'

/-- The arguments that are neither flags nor their values. The search ends at a flag whose value
would be the last argument. -/
def words (flags : List Flag) : List String → List String
  | [] => []
  | "--" :: _ => []
  | arg :: rest =>
    if takesNext flags arg then
      match rest with
      | _ :: next :: rest => words flags (next :: rest)
      | _ => []
    else if isWord arg then arg :: words flags rest
    else words flags rest

/-- The arguments without the first occurrence of a word. -/
def dropWord (flags : List Flag) (word : String) : List String → List String
  | [] => []
  | "--" :: rest => "--" :: rest
  | arg :: rest =>
    if takesNext flags arg then
      match rest with
      | value :: rest => arg :: value :: dropWord flags word rest
      | [] => [arg]
    else if arg = word then rest
    else arg :: dropWord flags word rest

end Flag

end FlowCheck
