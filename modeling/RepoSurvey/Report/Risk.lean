import RepoSurvey.Insight.Risk
import RepoSurvey.Report.Page

/-!
# Risk report

A page that ranks the files that are risky to change and says what makes them so. Paths are seen
from the current directory `here`.
-/

namespace RepoSurvey.Report

/-- What makes a file risky. -/
def riskFactors : List (String × String) :=
  [("Complexity", "High cyclomatic complexity increases risk"),
    ("Size", "Larger files are harder to refactor"),
    ("Change Frequency", "Files that change often are riskier"),
    ("Contributors", "Multiple contributors indicate complexity"),
    ("Dependencies", "Files with many dependents are critical")]

/-- The mean of the scores of files. -/
def meanScore (risky : List RiskyFile) : Float :=
  (Decimal.ratio? ((risky.map RiskyFile.score).foldl (· + ·) 0) risky.length).getD 0

/-- A row of the table of risky files. -/
def riskRow (here repository : String) (n : Nat) (r : RiskyFile) : String :=
  let a := r.file.analysis
  s!"| {n} | {pathIn here repository r.file} | {r.score} | {a.lines} | {a.complexity} | " ++
    s!"{r.file.dependents} |"

/-- The lines about critical files. -/
def criticalLines (here repository : String) (risky : List RiskyFile) : List String :=
  let critical := risky.filter fun r ↦ Risk.criticalScore ≤ r.score
  unlessEmpty critical <|
    [s!"**{critical.length} critical files** need immediate attention:", ""] ++
    (critical.map fun r ↦ s!"- {pathIn here repository r.file} (Score: {r.score})") ++ [""]

/-- The lines about risky files, of which there is at least one. -/
def riskyLines (here repository : String) (risky : List RiskyFile) : List String :=
  ["## Summary",
    "",
    s!"Found {risky.length} high-risk files.",
    "",
    "Average Risk Score: " ++ Decimal.fixed 1 (meanScore risky),
    "",
    "## High-Risk Files",
    "",
    "| Rank | File | Risk Score | Lines | Complexity | Dependencies |",
    "|------|------|------------|-------|------------|--------------|"] ++
  ((numbered risky).map fun (n, r) ↦ riskRow here repository n r) ++
  ["", "## Risk Score Factors", ""] ++
  (riskFactors.map fun (name, text) ↦ "- " ++ bold (name ++ ":") ++ " " ++ text) ++
  ["", "## Recommendations", ""] ++
  criticalLines here repository risky ++
  ["### General Recommendations",
    "",
    "1. Start by breaking down large files",
    "2. Add tests before refactoring critical files",
    "3. Document complex logic",
    "4. Consider extracting reusable components",
    "5. Review files with high change frequency for stability issues",
    "",
    "---",
    "",
    footer]

/-- The risk report on ranked files. -/
def risk (here repository : String) (risky : List RiskyFile) (threshold : Int)
    (generated : String) : String :=
  page <|
    heading "Refactor Risk Report" repository
      [("Threshold", toString threshold), ("Generated", generated)] ++
    [""] ++
    (if risky.isEmpty then ["No high-risk files found!"] else riskyLines here repository risky)

end RepoSurvey.Report
