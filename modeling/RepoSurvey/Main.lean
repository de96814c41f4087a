import RepoSurvey.CommandLine.Run
import RepoSurvey.Snapshot

/-!
# The program

The words of the command line say which report is asked for. What the survey looks at stands on
standard input as a snapshot.
-/

namespace RepoSurvey

/-- All that is left of a stream, behind what has been read. -/
partial def readRest (stream : IO.FS.Stream) (soFar : String) : IO String := do
  let line ← stream.getLine
  if line.isEmpty then return soFar else readRest stream (soFar ++ line)

/-- Carries out a command line on a snapshot. -/
def carryOut (snapshot : Snapshot) (words : List String) : IO UInt32 := do
  let outcome := CommandLine.run snapshot.site.files snapshot.directory snapshot.site.now.stamp
    snapshot.survey words
  IO.eprint outcome.stderr
  if let some (path, report) := outcome.saved then IO.FS.writeFile path report
  if let some (path, fault) := outcome.unsaved then IO.eprintln (fault.message path)
  IO.print outcome.stdout
  return outcome.exit.toUInt32

end RepoSurvey

open RepoSurvey in
/-- Carries out a command line on the snapshot that stands on standard input. -/
def main (words : List String) : IO UInt32 := do
  match Snapshot.ofText? (← readRest (← IO.getStdin) "") with
  | some snapshot => carryOut snapshot words
  | none =>
    IO.eprintln "standard input holds no snapshot"
    return 1
