import RepoSurvey.Imports.DeadCode
import RepoSurvey.Survey.Totals

/-!
# Survey results

Everything that a survey of a repository finds.
-/

namespace RepoSurvey

/-- What a survey of a repository has found. -/
structure Survey where
  /-- The absolute path of the repository. -/
  repository : String
  totalFiles : Nat
  files : List EnrichedFile
  graph : ImportGraph
  deadCode : List DeadCodeEntry
  languages : List (String × LanguageTotals)
  contributors : List ContributorTotals
  /-- When the survey was made. -/
  time : String

namespace Survey

/-- The written form of an import graph. -/
def graphJson (graph : ImportGraph) : Json :=
  .obj (graph.map fun (path, node) ↦ (path, node.toJson))

/-- The written form. -/
def toJson (s : Survey) : Json :=
  .obj [("repository", .str s.repository),
    ("totalFiles", .int s.totalFiles),
    ("files", .arr (s.files.map EnrichedFile.toJson)),
    ("callGraph", graphJson s.graph),
    ("deadCode", .arr (s.deadCode.map DeadCodeEntry.toJson)),
    ("languages", .obj (s.languages.map fun (name, totals) ↦ (name, totals.toJson))),
    ("topContributors", .arr (s.contributors.map ContributorTotals.toJson)),
    ("analyzedAt", .str s.time)]

end Survey

end RepoSurvey
