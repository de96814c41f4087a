import RepoSurvey.Text.Quoted

/-!
# Git commands

The commands by which a history is read, and how they may fail. A command that exits with an error
or that the system cannot start is an expected failure: the history answers without it. Any other
fault is passed on.
-/

namespace RepoSurvey.History

open RepoSurvey.Text

/-- A git command. -/
inductive Command where
  /-- Where the directory lies in its work tree. -/
  | showPrefix
  /-- The whole log, with the names of files. -/
  | fullLog
  /-- The log of one file. -/
  | fileLog (key : String)
  /-- The names of all tracked files. -/
  | listFiles
deriving DecidableEq, Repr

/-- How a header of the log is written. -/
def logFormat : String := "--pretty=format:%H%x09%an%x09%aI%x09%s"

/-- The words of a command line. -/
def Command.words (c : Command) : List String :=
  ["git", "-c", "core.quotepath=off"] ++
    match c with
    | .showPrefix => ["rev-parse", "--show-prefix"]
    | .fullLog => ["log", "--name-only", "--date=iso-strict", logFormat]
    | .fileLog key => ["log", "--date=iso-strict", logFormat, "--", key]
    | .listFiles => ["ls-files"]

/-- The written command line. -/
def commandLine (words : List String) : String := " ".intercalate words

/-- The kinds of failure of the system. -/
inductive SystemFailure where
  | general
  | fileNotFound
  | notADirectory
deriving DecidableEq, Repr

/-- The kinds of fault that no failing command explains. -/
inductive StrayFault where
  | value
  | runtime
  | key
deriving DecidableEq, Repr

/-- How a command may fail. -/
inductive CommandFault where
  /-- The command exits with a code and a text on its error stream. -/
  | exit (code : Int) (stderr : String)
  /-- The system fails to run the command. -/
  | system (kind : SystemFailure) (message : String)
  /-- Something else goes wrong. -/
  | stray (kind : StrayFault) (message : String)
deriving DecidableEq, Repr

namespace CommandFault

/-- Whether a history answers without the command. -/
def isExpected : CommandFault → Bool
  | .stray _ _ => false
  | _ => true

/-- What an exited command says of its failure: the last line on its error stream, or its code. -/
def exitDetail (code : Int) (stderr : String) : String :=
  match (lines (trim stderr.toList)).getLast? with
  | some line => String.ofList line
  | none => s!"exit status {code}"

/-- The wording of an exit of a command line. -/
def exitMessage (words : List String) (code : Int) (stderr : String) : String :=
  commandLine words ++ ": " ++ exitDetail code stderr

/-- The wording of a fault of a command. -/
def message (c : Command) : CommandFault → String
  | .exit code stderr => exitMessage c.words code stderr
  | .system _ message => message
  | .stray .key message => quoted message
  | .stray _ message => message

end CommandFault

/-- What a command yields. -/
abbrev Outcome := Except CommandFault String

end RepoSurvey.History
