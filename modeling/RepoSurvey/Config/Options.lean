import RepoSurvey.Assoc
import RepoSurvey.Imports.DeadCode

/-!
# Options

What decides how a survey is made. Options come from the command line or from a request, and the
configuration file of the repository fills in those that still have their usual values; only the
patterns of ignored files are taken from both.
-/

namespace RepoSurvey

open RepoSurvey.Text

/-- How a survey is made. -/
structure Options where
  ignore : List String := ["node_modules", ".git", "dist", "build", "coverage"]
  includeTests : Bool := false
  includeRelated : Bool := true
  entryPoints : List String := DeadCode.defaultEntryPoints
  /-- The least share of common commits with which files count as related. -/
  threshold : Float := 0.3
  /-- How many related files are listed for a file. -/
  relatedLimit : Int := 5
  /-- How many files are looked at beside each other. -/
  concurrency : Int := 5

namespace Options

/-- The usual options. -/
def usual : Options := {}

/-- Lists without repetitions, one behind the other. -/
def union (first second : List String) : List String := Assoc.distinct (first ++ second)

/-- The patterns beside the usual ones that a caller gives. -/
def ignorePatterns (given : List String) : List String :=
  let patterns := (given.map strip).filter (· != "")
  if given.isEmpty then usual.ignore else union usual.ignore patterns

/-- The patterns that a text lists between commas. -/
def ignoreText (given : String) : List String :=
  if given = "" then usual.ignore else ignorePatterns (splitString ',' given)

/-- What a caller may ask for; what is not given has its usual value. -/
structure Request where
  /-- All patterns of ignored files. -/
  ignore : List String := usual.ignore
  includeTests : Bool := false
  includeRelated : Option Bool := none
  /-- Counts only if `includeRelated` is not given. -/
  skipRelated : Bool := false
  concurrency : Int := usual.concurrency

/-- The options that a caller asks for. -/
def ofRequest (r : Request) : Options where
  ignore := r.ignore
  includeTests := r.includeTests
  includeRelated := r.includeRelated.getD !r.skipRelated
  concurrency := max 1 r.concurrency

end Options

/-- What the configuration file of a repository says. -/
structure Config where
  /-- The directory of the file. -/
  root : String
  ignore : List String := []
  includeTests : Option Bool := none
  entryPoints : List String := []
  includeRelated : Option Bool := none
  threshold : Option Float := none
  relatedLimit : Option Int := none
  concurrency : Option Int := none

namespace Config

/-- The value of an option: the caller's if it is not the usual one, else the file's if it has
one. -/
def choose {α : Type} [BEq α] (usual chosen : α) (file : Option α) : α :=
  if chosen == usual then file.getD chosen else chosen

/-- Options that still have their usual values, with the file's values. -/
def apply (c : Config) (o : Options) : Options where
  ignore := if c.ignore.isEmpty then o.ignore else Options.union o.ignore c.ignore
  includeTests := choose Options.usual.includeTests o.includeTests c.includeTests
  includeRelated := choose Options.usual.includeRelated o.includeRelated c.includeRelated
  entryPoints := choose Options.usual.entryPoints o.entryPoints
    (if c.entryPoints.isEmpty then none else some c.entryPoints)
  threshold := choose Options.usual.threshold o.threshold c.threshold
  relatedLimit := choose Options.usual.relatedLimit o.relatedLimit (c.relatedLimit.map (max 0))
  concurrency := choose Options.usual.concurrency o.concurrency (c.concurrency.map (max 1))

end Config

end RepoSurvey
