import RepoSurvey.Assoc

/-!
# Names collected from one source file

An `Extraction` holds six buckets of names. A bucket is an ordered set: a name is put behind the
names already there, and nothing is done for an empty name, a missing name or one that the bucket
has. Names are collected as a list of findings, and `Extraction.ofFindings` puts them in.

While names are put in, a `Collector` keeps beside each bucket the set of its names, so that a name
need not be looked for in the bucket itself.
-/

namespace RepoSurvey

/-- What kind of thing a collected name names. -/
inductive Bucket where
  | imports
  | functions
  | classes
  | exports
  | interfaces
  | structs
deriving DecidableEq, Repr

namespace Bucket

/-- All buckets, in the order in which they are written. -/
def all : List Bucket := [.imports, .functions, .classes, .exports, .interfaces, .structs]

/-- The written name of a bucket. -/
def label : Bucket → String
  | .imports => "imports"
  | .functions => "functions"
  | .classes => "classes"
  | .exports => "exports"
  | .interfaces => "interfaces"
  | .structs => "structs"

/-- The bucket of a written name. -/
def ofLabel? (s : String) : Option Bucket := all.find? fun b ↦ b.label == s

end Bucket

/-- The names found in one source file, in the order in which each was first seen. -/
structure Extraction where
  imports : List String := []
  functions : List String := []
  classes : List String := []
  exports : List String := []
  interfaces : List String := []
  structs : List String := []
deriving DecidableEq, Repr, Inhabited

/-- One name for one bucket; an absent name is a finding that adds nothing. -/
abbrev Finding := Bucket × Option String

namespace Extraction

/-- The names in a bucket. -/
def get (e : Extraction) : Bucket → List String
  | .imports => e.imports
  | .functions => e.functions
  | .classes => e.classes
  | .exports => e.exports
  | .interfaces => e.interfaces
  | .structs => e.structs

/-- Replaces the names in a bucket. -/
def set (e : Extraction) (b : Bucket) (names : List String) : Extraction :=
  match b with
  | .imports => { e with imports := names }
  | .functions => { e with functions := names }
  | .classes => { e with classes := names }
  | .exports => { e with exports := names }
  | .interfaces => { e with interfaces := names }
  | .structs => { e with structs := names }

end Extraction

/-! ### Collecting -/

/-- An extraction that names are put into. -/
structure Collector where
  names : Extraction
  /-- For buckets that a name has been put into, or found in, the set of their names. The order of
  these names means nothing. -/
  known : List (Bucket × List String) := []
deriving Repr

namespace Collector

/-- The set of the names of a bucket, which is made from the bucket when it is first wanted. -/
def knownIn (c : Collector) (b : Bucket) : List String := (c.known.lookup b).getD (c.names.get b)

/-- Puts a name behind the others, unless it is known already. -/
def put (c : Collector) (b : Bucket) (name : String) : Collector :=
  let known := c.knownIn b
  if name ∈ known then { c with known := Assoc.set b known c.known }
  else
    { names := c.names.set b (c.names.get b ++ [name])
      known := Assoc.set b (name :: known) c.known }

/-- Adds one finding. -/
def add (c : Collector) (f : Finding) : Collector :=
  match f with
  | (b, some name) => if name = "" then c else c.put b name
  | (_, none) => c

/-- Adds findings in order. -/
def addAll (c : Collector) (fs : List Finding) : Collector := fs.foldl add c

end Collector

namespace Extraction

/-- Adds findings in order. -/
def addAll (e : Extraction) (fs : List Finding) : Extraction := (Collector.addAll ⟨e, []⟩ fs).names

/-- Adds one finding. -/
def add (e : Extraction) (f : Finding) : Extraction := e.addAll [f]

/-- The extraction that a list of findings amounts to. -/
def ofFindings (fs : List Finding) : Extraction := addAll {} fs

end Extraction

end RepoSurvey
