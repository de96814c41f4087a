import RepoSurvey.Assoc
import RepoSurvey.Code.FileAnalysis
import RepoSurvey.Imports.Resolver

/-!
# Import graph

The files of an analysis import one another. `edges` lists who imports whom, a pair for each import
that leads to an analysed file; the graph has a node for each analysed path and is read off the
edges, so that calling and being called always agree.
-/

namespace RepoSurvey

/-- The files that a file imports and those that import it. -/
structure ImportNode where
  calls : List String := []
  calledBy : List String := []
deriving DecidableEq, Repr

namespace ImportNode

/-- The written form, with names in order. -/
def toJson (n : ImportNode) : Json :=
  .obj [("calls", FileAnalysis.namesJson (Text.sortStrings n.calls)),
    ("calledBy", FileAnalysis.namesJson (Text.sortStrings n.calledBy))]

end ImportNode

/-- A node for each path, in the order of the files. -/
abbrev ImportGraph := List (String × ImportNode)

namespace Imports

/-- The analysed paths, each once. -/
def paths (analyses : List FileAnalysis) : List String :=
  Assoc.distinct (analyses.map FileAnalysis.path)

/-- The analysed path that a resolved path means; of several with one normal form the last. -/
def known? (paths : List String) (resolved : String) : Option String :=
  paths.reverse.find? fun p ↦ Path.normal p == resolved

/-- What each import leads to among the analysed paths. -/
def links (r : Resolver) (analyses : List FileAnalysis) : List (String × Option String) :=
  let paths := paths analyses
  analyses.flatMap fun a ↦
    a.imports.map fun s ↦ (a.path, (r.resolve a.path s).bind (known? paths))

/-- Who imports whom. -/
def edges (r : Resolver) (analyses : List FileAnalysis) : List (String × String) :=
  (links r analyses).filterMap fun (source, target) ↦ target.map (source, ·)

/-- The number of imports that lead to no analysed file. -/
def unresolvedCount (r : Resolver) (analyses : List FileAnalysis) : Nat :=
  ((links r analyses).filter fun l ↦ l.2.isNone).length

/-- The node of a path among edges. -/
def nodeOf (es : List (String × String)) (path : String) : ImportNode where
  calls := Assoc.distinct ((es.filter fun e ↦ e.1 == path).map Prod.snd)
  calledBy := Assoc.distinct ((es.filter fun e ↦ e.2 == path).map Prod.fst)

/-- The import graph of analysed files. -/
def graph (r : Resolver) (analyses : List FileAnalysis) : ImportGraph :=
  let es := edges r analyses
  (paths analyses).map fun p ↦ (p, nodeOf es p)

/-- The number of edges of a graph. -/
def edgeCount (g : ImportGraph) : Nat := (g.map fun n ↦ n.2.calls.length).foldl (· + ·) 0

end Imports

end RepoSurvey
