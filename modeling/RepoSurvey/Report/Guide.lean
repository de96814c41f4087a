import RepoSurvey.Report.Map

/-!
# Onboarding guide

A page for those who are new to a repository: what it is written in, where to start reading, whom to
ask, and where its tests and its configuration are.
-/

namespace RepoSurvey.Report

/-! Paths are seen from the current directory `here`. -/

variable (here : String)

/-- The share of all lines that is written in a language, in percent. -/
def percentOfLines (s : Survey) (t : LanguageTotals) : Float :=
  let total := (s.languages.map fun l ↦ l.2.lines).foldl (· + ·) 0
  if total = 0 then 0 else (Decimal.ratio? t.lines total).getD 0 * 100

/-- The lines about languages. -/
def languageLines (s : Survey) : List String :=
  s.languages.map fun (name, t) ↦
    s!"  - {name}: {t.count} files ({Decimal.fixed 1 (percentOfLines s t)}% of codebase)"

/-- The lines about where to start. -/
def startLines (s : Survey) : List String :=
  let files := filesIn here s .entryPoint
  unlessEmpty files <|
    ["#### Entry Points", "", "Start by looking at these main entry points:", ""] ++
    ((numbered (files.take 5)).flatMap fun (n, f) ↦
      [s!"{n}. " ++ bold (pathIn here s.repository f),
        "   - Purpose: Main application entry point",
        "   - Owner: " ++ f.ownership.primary,
        "   - Complexity: " ++ complexityWord f.analysis.complexity]) ++
    [""]

/-- The lines about the files that others build on. -/
def componentLines (s : Survey) : List String :=
  let files := filesIn here s .core
  unlessEmpty files <|
    ["#### Core Components",
      "",
      "These are the most important files in the codebase (heavily used by other files):",
      ""] ++
    ((numbered (files.take 5)).flatMap fun (n, f) ↦
      [s!"{n}. " ++ bold (pathIn here s.repository f) ++ s!" (used by {f.dependents} files)",
        "   - Owner: " ++ f.ownership.primary,
        s!"   - Functions: {f.analysis.functions.length}",
        s!"   - Classes: {f.analysis.classes.length}"]) ++
    [""]

/-- The lines about features. -/
def overviewLines (s : Survey) : List String :=
  let features := featuresOf here s
  unlessEmpty features <|
    ["### Features Overview", ""] ++
    ((features.take 8).map fun f ↦ "- " ++ bold f.name ++ s!": {f.files.length} files") ++ [""]

/-- The lines about contributors. -/
def teamLines (s : Survey) : List String :=
  (numbered (s.contributors.take 5)).flatMap fun (n, c) ↦
    [s!"{n}. " ++ bold c.author,
      s!"   - Primary owner of: {c.filesOwned} files",
      s!"   - Total commits: {c.commits}"]

/-- The directory of a path, where an empty one is a point. -/
def directoryOf (path : String) : String :=
  let directory := Path.directory path
  if directory = "" then "." else directory

/-- The lines about tests. -/
def testLines (s : Survey) : List String :=
  let tests := filesIn here s .test
  let directories := Assoc.distinct (tests.map fun f ↦ directoryOf (pathIn here s.repository f))
  if directories.isEmpty then ["No test files detected in standard locations."]
  else
    [s!"This repository has {tests.length} test files.", "", "Test files are located in:"] ++
    directories.map ("- " ++ ·)

/-- The lines about configuration files. -/
def configLines (s : Survey) : List String :=
  let files := filesIn here s .config
  if files.isEmpty then ["No configuration files detected."]
  else ["Configuration files:", ""] ++ files.map fun f ↦ "- " ++ pathIn here s.repository f

/-- The lines about files that may be dead. -/
def maintenanceLines (s : Survey) : List String :=
  unlessEmpty s.deadCode
    ["### Maintenance Notes",
      "",
      s!"There are {s.deadCode.length} files that may be unused (dead code).",
      "Consider reviewing these files for potential cleanup.",
      ""]

/-- The onboarding guide of a survey. -/
def guide (s : Survey) : String :=
  page <|
    heading "Onboarding Guide" s.repository [("Generated", s.time)] ++
    ["",
      "## Quick Start",
      "",
      "Welcome to the codebase! This guide will help you understand the repository structure " ++
        "and get started quickly.",
      "",
      "### Repository Statistics",
      "",
      s!"- **Total Files:** {s.totalFiles}",
      "- **Languages Used:**"] ++
    languageLines s ++ ["", "### Where to Start", ""] ++
    startLines here s ++ componentLines here s ++ overviewLines here s ++
    ["### Team & Ownership", "", "Key contributors to this codebase:", ""] ++
    teamLines s ++ ["", "### Testing", ""] ++
    testLines here s ++ ["", "### Configuration", ""] ++
    configLines here s ++ [""] ++
    maintenanceLines s ++
    ["### Next Steps",
      "",
      "1. Read through the entry points to understand the application flow",
      "2. Review the core components to understand the main abstractions",
      "3. Check the configuration files to understand project setup",
      "4. Look at test files to understand expected behavior",
      "5. Reach out to the key contributors for questions",
      "",
      "---",
      "",
      footer]

end RepoSurvey.Report
