/-!
# Log records

What a run tells about itself is a list of records. A record is written to the console and to a log
file only if its level is at least the level of the one or the other.
-/

namespace RepoSurvey

/-- How much a record matters. -/
inductive Level where
  | debug
  | info
  | warning
  | error
  | critical
deriving DecidableEq, Repr

namespace Level

/-- The rank of a level. -/
def rank : Level → Nat
  | .debug => 10
  | .info => 20
  | .warning => 30
  | .error => 40
  | .critical => 50

/-- The written name of a level. -/
def name : Level → String
  | .debug => "DEBUG"
  | .info => "INFO"
  | .warning => "WARNING"
  | .error => "ERROR"
  | .critical => "CRITICAL"

/-- All levels, least first. -/
def all : List Level := [.debug, .info, .warning, .error, .critical]

/-- Whether a level is at least another. -/
def reaches (level least : Level) : Bool := least.rank ≤ level.rank

end Level

/-- Something that a run tells about itself. -/
structure Record where
  level : Level
  message : String
deriving DecidableEq, Repr

/-- Where records are written: the level of the console, and whether there is a log file, which
takes all records. -/
structure Logging where
  console : Level
  toFile : Bool := false
deriving DecidableEq, Repr

namespace Logging

/-- The name that every logger's name begins with. -/
def rootName : String := "archaeologist"

/-- The name of a logger. -/
def loggerName (name : String) : String :=
  if name = "" then rootName else rootName ++ "." ++ name

/-- A console that is verbose, or else quiet, or neither. -/
def configure (verbose quiet toFile : Bool) : Logging where
  console := if verbose then .debug else if quiet then .warning else .info
  toFile

/-- The least level at which any record is written. -/
def least (l : Logging) : Level := if l.toFile then .debug else l.console

/-- What a record writes to the console. -/
def consoleText (l : Logging) (r : Record) : String :=
  if r.level.reaches l.least && r.level.reaches l.console then
    "[" ++ rootName ++ "] " ++ r.level.name ++ " " ++ r.message ++ "\n"
  else ""

/-- What a record of a logger writes to the log file, apart from the time. -/
def fileText? (l : Logging) (name : String) (r : Record) : Option String :=
  if l.toFile && r.level.reaches l.least then
    some (r.level.name ++ " " ++ loggerName name ++ ": " ++ r.message)
  else none

/-- What records write to the console, one after the other. -/
def consoleTexts (l : Logging) (rs : List Record) : String := String.join (rs.map l.consoleText)

end Logging

/-- What a record writes to the console where nothing has been configured. -/
def Record.plainText (r : Record) : String :=
  if r.level.reaches .warning then r.message ++ "\n" else ""

end RepoSurvey
