import RepoSurvey.Limit
import RepoSurvey.Survey.EnrichedFile

/-!
# Totals

Sums over all files: for each language its files, lines and bytes, and for each author the commits
and the files that are mostly theirs. Languages and authors stand in the order in which they are
first seen; authors are then ranked by their commits.
-/

namespace RepoSurvey

/-! ### Languages -/

/-- The sums over the files of a language. -/
structure LanguageTotals where
  count : Nat := 0
  lines : Nat := 0
  size : Nat := 0
deriving DecidableEq, Repr

namespace LanguageTotals

/-- The sums with one more file. -/
def add (t : LanguageTotals) (a : FileAnalysis) : LanguageTotals :=
  ⟨t.count + 1, t.lines + a.lines, t.size + a.size⟩

/-- The sums for each language of the files, first seen first. -/
def ofFiles (files : List EnrichedFile) : List (String × LanguageTotals) :=
  files.foldl (fun totals f ↦
    Assoc.modify f.analysis.language (fun t ↦ (t.getD {}).add f.analysis) totals) []

/-- The written form. -/
def toJson (t : LanguageTotals) : Json :=
  .obj [("count", .int t.count), ("totalLines", .int t.lines), ("totalSize", .int t.size)]

end LanguageTotals

/-! ### Contributors -/

/-- What an author has done in all files. -/
structure ContributorTotals where
  author : String
  /-- The number of files that are mostly theirs. -/
  filesOwned : Nat := 0
  commits : Nat := 0
deriving DecidableEq, Repr

namespace ContributorTotals

/-- The number of contributors that a survey names. -/
def usualLimit : Int := 10

/-- Changes what is known of an author, who is added if not there yet. -/
def update (author : String) (f : ContributorTotals → ContributorTotals) :
    List (String × ContributorTotals) → List (String × ContributorTotals) :=
  Assoc.modify author fun t ↦ f (t.getD { author })

/-- Adds the commits of a contributor to a file. -/
def addCommits (totals : List (String × ContributorTotals)) (c : History.Contributor) :
    List (String × ContributorTotals) :=
  update c.author (fun t ↦ { t with commits := t.commits + c.commits }) totals

/-- Whether a name is that of an author who can own files. -/
def isKnown (author : String) : Bool := author != "" && author != "Unknown"

/-- Adds the contributors and the owner of a file. -/
def addFile (totals : List (String × ContributorTotals)) (o : History.Ownership) :
    List (String × ContributorTotals) :=
  let totals := o.contributors.foldl addCommits totals
  if isKnown o.primary then
    update o.primary (fun t ↦ { t with filesOwned := t.filesOwned + 1 }) totals
  else totals

/-- What each author has done, first seen first. -/
def gathered (files : List EnrichedFile) : List ContributorTotals :=
  (files.foldl (fun totals f ↦ addFile totals f.ownership) []).map Prod.snd

/-- The authors within a limit, those with more commits first. -/
def ofFiles (limit : Int) (files : List EnrichedFile) : List ContributorTotals :=
  within limit ((gathered files).mergeSort fun a b ↦ b.commits ≤ a.commits)

/-- The written form. -/
def toJson (t : ContributorTotals) : Json :=
  .obj [("author", .str t.author), ("filesOwned", .int t.filesOwned),
    ("totalCommits", .int t.commits)]

end ContributorTotals

end RepoSurvey
