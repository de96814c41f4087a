import RepoSurvey.Limit
import RepoSurvey.Report.Page

/-!
# Summary

The plain text that sums up a survey: languages, the first contributors, and files that may be dead.
-/

namespace RepoSurvey.Report

/-- How many dead files a summary names. -/
def usualDeadCodeLimit : Int := 10

/-- The lines about files that may be dead; paths are seen from the current directory `here`. -/
def deadCodeLines (here : String) (s : Survey) (limit : Int) : List String :=
  let entries := (within limit s.deadCode).flatMap fun e ↦
    ["  ! " ++ Path.below here (some s.repository) e.path, "     " ++ e.reason]
  let remaining := Int.ofNat s.deadCode.length - limit
  ["", "Potential Dead Code:"] ++ entries ++
    (if 0 < remaining then [s!"  ... and {remaining} more"] else [])

/-- The lines about contributors. -/
def contributorLines (s : Survey) : List String :=
  (numbered (s.contributors.take 5)).flatMap fun (n, c) ↦
    [s!"  {n}. {c.author}", s!"     Files: {c.filesOwned}, Commits: {c.commits}"]

/-- The summary of a survey. -/
def summary (here : String) (s : Survey) (deadCodeLimit : Int) : String :=
  page <|
    ["=== Repository Analysis ===",
      "Repository: " ++ s.repository,
      "Analyzed at: " ++ s.time,
      "",
      "Overview:",
      s!"  Total Files: {s.totalFiles}",
      s!"  Dead Code Files: {s.deadCode.length}",
      "",
      "Languages:"] ++
    (s.languages.map fun (name, t) ↦ s!"  {name}: {t.count} files, {t.lines} lines") ++
    ["", "Top Contributors:"] ++ contributorLines s ++
    unlessEmpty s.deadCode (deadCodeLines here s deadCodeLimit)

end RepoSurvey.Report
