import RepoSurvey.Survey.EnrichedFile

/-!
# Features

Files are grouped by the first directory below the root that says what they are about. Directories
with names that many projects share say nothing; a file that lies in no other directory belongs to
no feature.
-/

namespace RepoSurvey

open RepoSurvey.Text

/-- The files of a directory that says what they are about. -/
structure Feature where
  name : String
  files : List String
deriving DecidableEq, Repr

namespace Feature

/-- Directory names that say nothing about the files in them, in lower case. -/
def commonNames : List String := ["src", "lib", "app", "components", "utils", "test"]

/-- Whether a directory name says what its files are about. -/
def isTelling (name : String) : Bool := name != "" && !commonNames.contains (lowercase name)

/-- The directories of a path below the root, both seen from the current directory `here`. -/
def directories (here : String) (root : Option String) (path : String) : List String :=
  (splitString '/' (Path.below here root path)).dropLast

/-- The name of the feature to which a path belongs. -/
def nameOf? (here : String) (root : Option String) (path : String) : Option String :=
  (directories here root path).find? isTelling

/-- Puts a path among those of its feature. -/
def insert (here : String) (root : Option String) (groups : List (String × List String))
    (path : String) : List (String × List String) :=
  match nameOf? here root path with
  | some name => Assoc.modify name (fun paths ↦ paths.getD [] ++ [path]) groups
  | none => groups

/-- The features of files, in the order of their first files. -/
def ofFiles (here : String) (root : Option String) (files : List EnrichedFile) : List Feature :=
  ((files.map EnrichedFile.path).foldl (insert here root) []).map fun (name, paths) ↦ ⟨name, paths⟩

/-- The written form. -/
def toJson (f : Feature) : Json :=
  .obj [("name", .str f.name), ("fileCount", .int f.files.length),
    ("files", FileAnalysis.namesJson f.files)]

end Feature

end RepoSurvey
