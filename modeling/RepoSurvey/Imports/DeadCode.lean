import RepoSurvey.Imports.Graph

/-!
# Dead code

A file that exports names and that no analysed file imports may be dead. Entry points are never
reported, and test files only on demand. What is loaded by a computed path is reported as well: the
result lists candidates.
-/

namespace RepoSurvey

open RepoSurvey.Text

/-- A file that may be dead. -/
structure DeadCodeEntry where
  path : String
  exports : List String
  reason : String := "No imports found from other files"
  confidence : String := "medium"
deriving DecidableEq, Repr

namespace DeadCodeEntry

/-- The written form. -/
def toJson (e : DeadCodeEntry) : Json :=
  .obj [("path", .str e.path), ("reason", .str e.reason),
    ("exports", FileAnalysis.namesJson e.exports), ("confidence", .str e.confidence)]

end DeadCodeEntry

namespace DeadCode

/-- The names of directories that hold tests. -/
def testDirectories : List String := ["test", "tests", "__tests__"]

/-- Whether a name ends in `.test` or `.spec` and an extension. -/
def isTestName (name : List Char) : Bool :=
  let back := name.reverse
  !(back.takeWhile (· != '.')).isEmpty &&
    match back.dropWhile (· != '.') with
    | [] => false
    | _ :: stem => ["tset.", "ceps."].any fun mark ↦ mark.toList.isPrefixOf stem

/-- Whether a relative path is that of a test. -/
def isTest (path : String) : Bool :=
  let cs := replaceChar '\\' '/' path.toList
  match (Path.parts cs).reverse with
  | [] => isTestName (Path.rootMark cs)
  | name :: directories =>
    directories.any (fun d ↦ testDirectories.contains (String.ofList d)) || isTestName name

/-- The names of files by which programs are entered. -/
def defaultEntryPoints : List String := ["index", "main", "app"]

/-- Whether a path, apart from its directory and extension, is one of the entry points. -/
def isEntryPoint (entryPoints : List String) (path : String) : Bool :=
  entryPoints.contains (Path.stem path)

/-- Whether a file may be dead, where paths are seen from the current directory `here`. -/
def isDead (here : String) (graph : ImportGraph) (root : Option String) (includeTests : Bool)
    (entryPoints : List String) (a : FileAnalysis) : Bool :=
  (match graph.lookup a.path with
    | some node => node.calledBy.isEmpty
    | none => false) &&
  !a.exports.isEmpty && !isEntryPoint entryPoints a.path &&
  (includeTests || !isTest (Path.below here root a.path))

/-- The files that may be dead, in order. -/
def entries (here : String) (graph : ImportGraph) (root : Option String) (includeTests : Bool)
    (entryPoints : List String) (analyses : List FileAnalysis) : List DeadCodeEntry :=
  (analyses.filter (isDead here graph root includeTests entryPoints)).map fun a ↦
    { path := a.path, exports := a.exports }

end DeadCode

end RepoSurvey
