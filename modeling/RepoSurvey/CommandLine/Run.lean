import RepoSurvey.CommandLine.Invocation
import RepoSurvey.Files.RealPath
import RepoSurvey.Files.Write
import RepoSurvey.Json.Printer
import RepoSurvey.Report.Guide
import RepoSurvey.Report.Risk
import RepoSurvey.Report.Summary
import RepoSurvey.Survey.Failure

/-!
# Carrying out a command line

A command line that is understood leads to a survey, and the survey to a report, which is printed or
saved. `run` says what is printed, what the files are afterwards and with which code the program
ends; how a survey is made is left to its argument.
-/

namespace RepoSurvey.CommandLine

/-! ### Reports -/

namespace Invocation

/-- The report that is asked for; `now` is when it is written, and paths are seen from the current
directory `here`. -/
def report (i : Invocation) (here now : String) (s : Survey) : String :=
  match i.command with
  | .analyze =>
    if i.json then s.toJson.pretty ++ "\n" else Report.summary here s Report.usualDeadCodeLimit
  | .map => if i.json then (Report.mapJson here s now).pretty ++ "\n" else Report.map here s now
  | .onboard => Report.guide here s
  | .risk => Report.risk here s.repository (Risk.rank i.threshold s.files) i.threshold now

/-- What is printed when there is no survey. -/
def apology {ε : Type} [Failure ε] (i : Invocation) (e : ε) : String :=
  match Failure.kind e with
  | .missing | .notADirectory => Failure.message e ++ "\n"
  | _ =>
    s!"{i.command.program} failed: {Failure.message e}\nRun with --verbose for more details.\n"

end Invocation

/-! ### Saving -/

/-- How the file of a saved report is named: as seen from the working directory if it lies below. -/
def shownPath (files : FileTree) (directory output : String) : String :=
  match files.realPath (Path.append directory output) with
  | .error _ => output
  | .ok real =>
    let way := Path.below directory (some directory) real
    if way = real then output else way

/-- Saves a text to a file, whose path may be seen from a working directory. -/
def save (files : FileTree) (directory output text : String) :
    Except FileTree.WriteFault FileTree :=
  files.writeText (Path.append directory output) text

/-! ### The program -/

/-- What the program does. -/
structure Outcome where
  exit : Nat := 0
  stdout : String := ""
  stderr : String := ""
  /-- The files afterwards. -/
  files : FileTree
  /-- The path and the text of a report that is saved. -/
  saved : Option (String × String) := none
  /-- Why a report could not be saved, with the path of its file. -/
  unsaved : Option (String × FileTree.WriteFault) := none

/-- Prints or saves a report. -/
def deliver (i : Invocation) (files : FileTree) (directory report : String) : Outcome :=
  if i.output = "" then { stdout := report, files }
  else
    let output := Path.clean i.output
    match save files directory output report with
    | .error fault => { exit := 1, files, unsaved := some (output, fault) }
    | .ok files =>
      { stdout := s!"Report saved to {shownPath files directory output}\n", files
        saved := some (output, report) }

/-- Does what an invocation asks for, given the survey or why there is none, and what was noted. -/
def finish {ε : Type} [Failure ε] (i : Invocation) (files : FileTree) (directory now : String)
    (notes : List Record) (survey : Except ε Survey) : Outcome :=
  let log := i.logging.consoleTexts notes
  match survey with
  | .error e => { exit := 1, stderr := log ++ i.apology e, files }
  | .ok s => { deliver i files directory (i.report directory now s) with stderr := log }

/-- Carries out a command line. -/
def run {ε : Type} [Failure ε] (files : FileTree) (directory now : String)
    (survey : (path : String) → Options → List Record × Except ε Survey) (words : List String) :
    Outcome :=
  match Invocation.ofWords words with
  | .error (.help program) => { stdout := (Refusal.help program).line ++ "\n", files }
  | .error refusal => { exit := 2, stderr := refusal.line ++ "\n", files }
  | .ok i =>
    let (notes, result) := survey i.path i.options
    finish i files directory now notes result

end RepoSurvey.CommandLine
