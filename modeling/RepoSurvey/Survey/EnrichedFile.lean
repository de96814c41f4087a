import RepoSurvey.History.Query
import RepoSurvey.Imports.Graph

/-!
# Enriched files

What is known of a file once its own text, its history and its place among the other files have been
looked at.
-/

namespace RepoSurvey

/-- An analysed file with its history and its place in the import graph. -/
structure EnrichedFile where
  analysis : FileAnalysis
  ownership : History.Ownership := {}
  /-- The number of commits a day. -/
  frequency : Float := 0
  /-- The files that change together with it. -/
  related : List History.CoChange := []
  node : ImportNode := {}

namespace EnrichedFile

/-- The path of the file. -/
def path (f : EnrichedFile) : String := f.analysis.path

/-- The number of files that import it. -/
def dependents (f : EnrichedFile) : Nat := f.node.calledBy.length

/-- The written form. -/
def toJson (f : EnrichedFile) : Json :=
  .obj (f.analysis.members ++
    [("ownership", f.ownership.toJson),
      ("changeFrequency", .float f.frequency),
      ("coChangedFiles", .arr (f.related.map History.CoChange.toJson)),
      ("callGraphInfo", f.node.toJson)])

end EnrichedFile

end RepoSurvey
