import Verbatim.Text.Reader
import Verbatim.Workbench.Command
import Verbatim.Workbench.Help

/-! Reading the arguments of the program. Arguments are read from first to last, and the first one
that is wrong, or asks for help, counts. -/

namespace Verbatim.CommandLine

/-- Why arguments lead to no command. -/
inductive Halt where
  | misuse
  | version
  | help (topic : Help.Topic) (atLength : Bool)
  deriving DecidableEq, Repr

inductive Argument where
  | operand (text : String)
  | long (name : String) (value : Option String)
  | short (letter : Char)
  /-- Two hyphens; whatever follows is an operand. -/
  | endOfOptions
  deriving DecidableEq, Repr

/-- A single hyphen is an operand. -/
def Argument.ofText (text : String) : Argument :=
  match text.toList with
  | ['-', '-'] => .endOfOptions
  | '-' :: '-' :: rest =>
    match rest.span (· ≠ '=') with
    | (name, []) => .long (String.ofList name) none
    | (name, _ :: value) => .long (String.ofList name) (some (String.ofList value))
  | '-' :: letter :: _ => .short letter
  | _ => .operand text

def Argument.isOperand : Argument → Bool
  | operand _ => true
  | long .. | short _ | endOfOptions => false

/-! What may be given. -/

inductive Operands where
  | atMost (count : Nat)
  | anyNumber
  /-- The first operand names a command, and the rest is read with that command. -/
  | command
  deriving DecidableEq, Repr

def Operands.allowMore (operands : Operands) (present : Nat) : Bool :=
  match operands with
  | atMost count => present < count
  | anyNumber => true
  | command => false

structure Shape where
  topic : Help.Topic
  /-- Options that have a value, with the values they take. -/
  valued : List (String × (String → Bool))
  flags : List String
  operands : Operands

structure Given where
  values : List (String × String)
  flags : List String
  operands : List String
  deriving DecidableEq, Repr

namespace Given

def nothing : Given := ⟨[], [], []⟩

/-- An option is given once. -/
def addValue (given : Given) (takes : String → Bool) (name value : String) : Except Halt Given :=
  if takes value && (given.values.lookup name).isNone then
    .ok { given with values := given.values ++ [(name, value)] }
  else .error .misuse

def addFlag (given : Given) (shape : Shape) (name : String) : Except Halt Given :=
  if shape.flags.contains name && !given.flags.contains name then
    .ok { given with flags := given.flags ++ [name] }
  else .error .misuse

def addOperand (shape : Shape) (given : Given) (operand : String) : Except Halt Given :=
  if !operand.isEmpty && shape.operands.allowMore given.operands.length then
    .ok { given with operands := given.operands ++ [operand] }
  else .error .misuse

end Given

/-- Help can be asked for everywhere, the version only of the program as a whole. -/
def haltAtLong (topic : Help.Topic) (name : String) : Option Halt :=
  if name = "help" then some (.help topic true)
  else if name = "version" && topic = .program then some .version
  else none

def haltAtShort (topic : Help.Topic) (letter : Char) : Halt :=
  if letter = 'h' then .help topic false
  else if letter = 'V' && topic = .program then .version
  else .misuse

/-- Read arguments up to the name of a command, or all of them. -/
def readArguments (shape : Shape) (given : Given) :
    List String → Except Halt (Given × List String)
  | [] => .ok (given, [])
  | text :: rest =>
    match Argument.ofText text with
    | .endOfOptions => do
      return (← rest.foldlM (Given.addOperand shape) given, [])
    | .operand operand =>
      if shape.operands = .command then .ok (given, text :: rest)
      else do readArguments shape (← given.addOperand shape operand) rest
    | .short letter => .error (haltAtShort shape.topic letter)
    | .long name (some value) =>
      match shape.valued.lookup name with
      | some takes => do readArguments shape (← given.addValue takes name value) rest
      | none => .error .misuse
    | .long name none =>
      match haltAtLong shape.topic name, shape.valued.lookup name, rest with
      | some halt, _, _ => .error halt
      | none, none, rest => do readArguments shape (← given.addFlag shape name) rest
      | none, some _, [] => .error .misuse
      | none, some takes, value :: rest =>
        if (Argument.ofText value).isOperand then do
          readArguments shape (← given.addValue takes name value) rest
        else .error .misuse

/-! Values of options. -/

def logLevels : List String := ["trace", "debug", "info", "warn", "error"]

/-- Logs are kept elsewhere; the level is only checked. -/
def logLevel : String × (String → Bool) := ("log-level", logLevels.contains)

/-- Milliseconds are a number of 64 bits, perhaps with a plus in front. -/
def milliseconds? (text : String) : Option Nat :=
  let digits := match text.toList with
    | '+' :: digits => digits
    | digits => digits
  if digits.isEmpty || !digits.all Char.isDigit then none
  else
    let number := digits.foldl (fun value c => value * 10 + Text.digitValue c) 0
    if number < Nat.pow 2 64 then some number else none

/-! The commands. -/

def programShape : Shape := ⟨.program, [logLevel], [], .command⟩

def runShape : Shape where
  topic := .run
  valued := [logLevel, ("recipe", fun path => !path.isEmpty),
    ("timeout-ms", fun text => (milliseconds? text).isSome)]
  flags := ["dry-run"]
  operands := .anyNumber

def printShape : Shape := ⟨.print, [logLevel], [], .atMost 1⟩

def visitorsShape : Shape := ⟨.visitors, [logLevel], [], .atMost 0⟩

/-- A time limit of nothing is over at once; no other one is ever reached. -/
def limits (given : Given) : WalkLimits :=
  { WalkLimits.none with expired := (given.values.lookup "timeout-ms").bind milliseconds? = some 0 }

def readRun (given : Given) : Except Halt Command :=
  match given.values.lookup "recipe", given.operands with
  | none, _ | _, [] => .error .misuse
  | some recipe, paths =>
    .ok (.run ⟨recipe, paths, given.flags.contains "dry-run", limits given⟩)

def readPrint (given : Given) : Except Halt Command :=
  match given.operands with
  | [path] => .ok (.print path)
  | _ => .error .misuse

def readHelp : List String → Halt
  | [] => .help .program true
  | ["run"] => .help .run true
  | ["print"] => .help .print true
  | ["visitors"] => .help .visitors true
  | ["help"] => .help .help true
  | _ => .misuse

def readCommand : List String → Except Halt Command
  | "run" :: rest => do readRun (← readArguments runShape .nothing rest).1
  | "print" :: rest => do readPrint (← readArguments printShape .nothing rest).1
  | "visitors" :: rest => do
    let _ ← readArguments visitorsShape .nothing rest
    return .visitors
  | "help" :: rest => .error (readHelp rest)
  | _ => .error .misuse

def parse (arguments : List String) : Except Halt Command := do
  readCommand (← readArguments programShape .nothing arguments).2

example : parse ["--log-level", "warn", "--version", "--wrong"] matches .error .version := by
  decide

/-! Misuse is reported outside the answer. -/

def Halt.outcome : Halt → CommandOutcome
  | misuse => ⟨Cause.invalidArguments.code, "", []⟩
  | version => ⟨0, Help.version, []⟩
  | help topic atLength => ⟨0, Help.about atLength topic, []⟩

def run (arguments : List String) (snapshot : Snapshot) : CommandOutcome :=
  match parse arguments with
  | .error halt => halt.outcome
  | .ok command => command.carryOut Workbench.standard snapshot

end Verbatim.CommandLine
