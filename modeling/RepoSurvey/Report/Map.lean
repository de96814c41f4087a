import RepoSurvey.Insight.Category
import RepoSurvey.Insight.Feature
import RepoSurvey.Report.Page

/-!
# Architecture map

A map of a repository by categories, features and the files on which most others depend, as a page
or as a JSON document.
-/

namespace RepoSurvey.Report

/-! Paths are seen from the current directory `here`. -/

variable (here : String)

/-- The files on which others depend, those with more dependents first, at most ten. -/
def mostDependedUpon (files : List EnrichedFile) : List EnrichedFile :=
  ((files.filter fun f ↦ 0 < f.dependents).mergeSort fun a b ↦
    b.dependents ≤ a.dependents).take 10

/-- The files of a category in a survey. -/
def filesIn (s : Survey) (c : Category) : List EnrichedFile :=
  c.filesIn here (some s.repository) s.files

/-- The features in a survey. -/
def featuresOf (s : Survey) : List Feature := Feature.ofFiles here (some s.repository) s.files

/-- The lines about entry points. -/
def entryPointLines (s : Survey) : List String :=
  let files := filesIn here s .entryPoint
  unlessEmpty files <|
    [s!"### Entry Points ({files.length})", ""] ++
    (files.flatMap fun f ↦
      ["- " ++ bold (pathIn here s.repository f),
        "  - Language: " ++ f.analysis.language,
        s!"  - Lines: {f.analysis.lines}",
        "  - Owner: " ++ f.ownership.primary]) ++
    [""]

/-- The lines about core files. -/
def coreLines (s : Survey) : List String :=
  let files := filesIn here s .core
  unlessEmpty files <|
    [s!"### Core Files ({files.length})", "", "Files that are heavily depended upon:", ""] ++
    ((files.take 10).map fun f ↦
      "- " ++ bold (pathIn here s.repository f) ++ " " ++ dependencies f) ++
    more 10 files.length ++ [""]

/-- The lines about one feature. -/
def featureLines (s : Survey) (f : Feature) : List String :=
  ["### " ++ f.name, "", s!"Files: {f.files.length}", ""] ++
    ((f.files.take 5).map fun path ↦ "- " ++ Path.below here (some s.repository) path) ++
    more 5 f.files.length ++ [""]

/-- The lines about all features. -/
def featuresLines (s : Survey) : List String :=
  let features := featuresOf here s
  unlessEmpty features (["## Features", ""] ++ features.flatMap (featureLines here s))

/-- The architecture map of a survey, as a page. -/
def map (s : Survey) (generated : String) : String :=
  page <|
    heading "Architecture Map" s.repository [("Generated", generated)] ++
    ["",
      "## Overview",
      "",
      s!"- **Total Files:** {s.totalFiles}",
      "- **Languages:** " ++ ", ".intercalate (s.languages.map Prod.fst),
      s!"- **Dead Code Files:** {s.deadCode.length}",
      "",
      "## File Categories",
      ""] ++
    entryPointLines here s ++ coreLines here s ++ featuresLines here s ++
    ["## Key Dependencies", "", "Files with the most incoming dependencies:", ""] ++
    (numbered (mostDependedUpon s.files)).map fun (n, f) ↦
      s!"{n}. " ++ bold (pathIn here s.repository f) ++ " " ++ dependencies f

/-- The architecture map of a survey, as a JSON document. -/
def mapJson (s : Survey) (generated : String) : Json :=
  .obj [("repository", .str s.repository),
    ("categories", .obj (Category.all.map fun c ↦
      (c.label, .arr ((filesIn here s c).map EnrichedFile.toJson)))),
    ("features", .arr ((featuresOf here s).map Feature.toJson)),
    ("callGraph", Survey.graphJson s.graph),
    ("generatedAt", .str generated)]

end RepoSurvey.Report
