import RepoSurvey.Survey.EnrichedFile

/-!
# Categories

Every file has one category, which its path below the root decides, and for what is left the number
of its dependents. The rules are tried in a fixed order; letters count without regard to case.
-/

namespace RepoSurvey

open RepoSurvey.Text

/-- What a file is for. -/
inductive Category where
  | entryPoint
  | core
  | utility
  | test
  | config
  | documentation
deriving DecidableEq, Repr

namespace Category

/-- All categories in the order in which they are listed. -/
def all : List Category := [.entryPoint, .core, .utility, .test, .config, .documentation]

/-- The name under which the files of a category are listed. -/
def label : Category → String
  | .entryPoint => "entryPoints"
  | .core => "core"
  | .utility => "utilities"
  | .test => "tests"
  | .config => "config"
  | .documentation => "documentation"

/-- The category of a file with the given path, in lower case, and number of dependents. -/
def ofPath (path : String) (dependents : Nat) : Category :=
  let name := Path.base path
  if contains path "test" || contains path "spec" then .test
  else if contains name "config" || name == "package.json" then .config
  else if contains path "readme" || endsWith name ".md" then .documentation
  else if ["index", "main", "app"].any (contains name) then .entryPoint
  else if contains name "util" || contains name "helper" || contains path "utils" ||
      contains path "helpers" then .utility
  else if 3 < dependents then .core
  else .utility

/-- The category of a file, where paths are seen from the current directory `here`. -/
def ofFile (here : String) (root : Option String) (f : EnrichedFile) : Category :=
  ofPath (lowercase (Path.below here root f.path)) f.dependents

/-- Puts a file behind those of its category. -/
def insert (here : String) (root : Option String) (groups : Category → List EnrichedFile)
    (f : EnrichedFile) : Category → List EnrichedFile :=
  fun c ↦ if c = ofFile here root f then groups c ++ [f] else groups c

/-- Files by category, each put into its own in one pass over them. -/
def group (here : String) (root : Option String) (files : List EnrichedFile) :
    Category → List EnrichedFile :=
  files.foldl (insert here root) fun _ ↦ []

/-- The files of a category, in order. -/
def filesIn (here : String) (c : Category) (root : Option String) (files : List EnrichedFile) :
    List EnrichedFile :=
  group here root files c

end Category

end RepoSurvey
