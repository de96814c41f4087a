import RepoSurvey.CommandLine.Words
import RepoSurvey.Config.Options
import RepoSurvey.Decimal.Text
import RepoSurvey.Insight.Risk
import RepoSurvey.Log

/-!
# Invocations

What the words of a command line ask for: a command, the repository, where the report goes, and the
options of the survey. Words that cannot be understood are refused with a line that says why; the
first fault counts, and a flag that asks for help counts as one.
-/

namespace RepoSurvey.CommandLine

open RepoSurvey.Text

/-- The name of the program. -/
def programName : String := "repo-archaeologist"

/-! ### Commands -/

/-- A command: which report is asked for. -/
inductive Command where
  | analyze
  | map
  | onboard
  | risk
deriving DecidableEq, Repr

namespace Command

/-- All commands. -/
def all : List Command := [.analyze, .map, .onboard, .risk]

/-- The word for a command. -/
def name : Command → String
  | .analyze => "analyze"
  | .map => "map"
  | .onboard => "onboard"
  | .risk => "risk"

/-- The command of a word. -/
def ofName? (s : String) : Option Command := all.find? fun c ↦ c.name == s

/-- The formats of a command's report, the usual one first. -/
def formats : Command → List String
  | .analyze => ["text", "json"]
  | .map => ["markdown", "json"]
  | _ => []

/-- The flags of a command. -/
def flags (c : Command) : List Flag :=
  [.help, .output, .ignore, .includeTests, .skipRelated, .verbose] ++
    match c with
    | .analyze | .map => [.format]
    | .onboard => []
    | .risk => [.threshold]

/-- How a command is called in messages. -/
def program (c : Command) : String := programName ++ " " ++ c.name

end Command

/-! ### Invocations -/

/-- What a command line asks for. -/
structure Invocation where
  command : Command
  path : String := "."
  /-- Where the report is saved; an empty text counts as nowhere. -/
  output : String := ""
  /-- Patterns of ignored files between commas. -/
  ignore : String := ""
  includeTests : Bool := false
  skipRelated : Bool := false
  verbose : Bool := false
  /-- Whether the report is a JSON document. -/
  json : Bool := false
  /-- The least score of a risky file. -/
  threshold : Int := Risk.usualThreshold
deriving DecidableEq, Repr

namespace Invocation

/-- The options of the survey. -/
def options (i : Invocation) : Options :=
  Options.ofRequest
    { ignore := Options.ignoreText i.ignore
      includeTests := i.includeTests
      skipRelated := i.skipRelated }

/-- How the survey is logged: sparsely where a JSON document is printed. -/
def logging (i : Invocation) : Logging :=
  Logging.configure i.verbose (i.json && i.output == "") false

end Invocation

/-! ### Understanding words -/

/-- Why a command line is not carried out. -/
inductive Refusal where
  /-- Help is asked for. -/
  | help (program : String)
  | fault (program : String) (why : WordFault)
deriving DecidableEq, Repr

/-- The line that says why a command line is not carried out. -/
def Refusal.line : Refusal → String
  | .help program => "usage: " ++ program ++ " [-h] ..."
  | .fault program why => program ++ ": error: " ++ why.message

/-- Takes a flag of a command. -/
def Invocation.takeFlag (i : Invocation) (f : Flag) (value : String) :
    Except Refusal Invocation :=
  match f with
  | .help => .error (.help i.command.program)
  | .verbose => .ok { i with verbose := true }
  | .output => .ok { i with output := value }
  | .ignore => .ok { i with ignore := value }
  | .includeTests => .ok { i with includeTests := true }
  | .skipRelated => .ok { i with skipRelated := true }
  | .format =>
    if value ∈ i.command.formats then .ok { i with json := value == "json" }
    else .error (.fault i.command.program (.badChoice f.label value i.command.formats))
  | .threshold =>
    match Decimal.readInt 10 value.toList with
    | .ok n => .ok { i with threshold := n }
    | .error _ => .error (.fault i.command.program (.badNumber f value))

/-- Takes something that the words behind a command say. -/
def Invocation.take (i : Invocation) : Event → Except Refusal Invocation
  | .flag f value => i.takeFlag f (value.getD "")
  | .operands words => .ok { i with path := words.headD i.path }

/-- What the words behind a command ask for, and those that nobody knows. -/
def readCommand (c : Command) (words : List String) :
    Except Refusal (Invocation × List String) := do
  let r := readWords c.flags .path words
  let i ← r.events.foldlM Invocation.take { command := c }
  match r.fault with
  | some fault => .error (.fault c.program fault)
  | none => .ok (i, r.unknown)

/-- What is understood of a whole command line. -/
structure Understood where
  verbose : Bool := false
  invocation : Option Invocation := none
  unknown : List String := []

/-- Takes something that a command line says. -/
def Understood.take (u : Understood) : Event → Except Refusal Understood
  | .flag .help _ => .error (.help programName)
  | .flag _ _ => .ok { u with verbose := true }
  | .operands words =>
    let word := words.headD ""
    match Command.ofName? word with
    | none =>
      .error (.fault programName (.badChoice "command" word (Command.all.map Command.name)))
    | some c => do
      let (i, unknown) ← readCommand c words.tail
      return { u with invocation := some i, unknown }

/-- What a command line asks for. -/
def Invocation.ofWords (words : List String) : Except Refusal Invocation := do
  let r := readWords [.help, .verbose] .command words
  let u ← r.events.foldlM Understood.take {}
  match r.fault, u.invocation, r.unknown ++ u.unknown with
  | some fault, _, _ => .error (.fault programName fault)
  | none, none, _ => .error (.fault programName .noCommand)
  | none, some i, [] => .ok { i with verbose := u.verbose || i.verbose }
  | none, some _, unknown => .error (.fault programName (.unknown unknown))

end RepoSurvey.CommandLine
