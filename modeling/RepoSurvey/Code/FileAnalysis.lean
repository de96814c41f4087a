import RepoSurvey.Code.Complexity
import RepoSurvey.Code.Language
import RepoSurvey.Code.Patterns
import RepoSurvey.Files.Tree
import RepoSurvey.Json.Basic
import RepoSurvey.Path
import RepoSurvey.Script.Grammar

/-!
# Analysis of one source file

A `FileAnalysis` holds what is known of a source file from its text alone. The names come from the
syntax tree where there is one, and from the pattern tables otherwise.
-/

namespace RepoSurvey

/-- What is known of a source file from its text alone. -/
structure FileAnalysis where
  path : String
  language : String := "javascript"
  size : Nat := 1
  lines : Nat := 1
  imports : List String := []
  functions : List String := []
  classes : List String := []
  exports : List String := []
  complexity : Nat := 1
  interfaces : Option (List String) := none
  structs : Option (List String) := none
deriving DecidableEq, Repr

namespace FileAnalysis

/-- The names as a JSON list. -/
def namesJson (names : List String) : Json := .arr (names.map .str)

/-- The members of the written form. -/
def members (a : FileAnalysis) : List (String × Json) :=
  [("path", .str a.path), ("language", .str a.language), ("size", .int a.size),
    ("lines", .int a.lines), ("imports", namesJson a.imports), ("functions", namesJson a.functions),
    ("classes", namesJson a.classes), ("exports", namesJson a.exports),
    ("complexity", .int a.complexity)] ++
  (a.interfaces.map fun names ↦ ("interfaces", namesJson names)).toList ++
  (a.structs.map fun names ↦ ("structs", namesJson names)).toList

/-- The written form. -/
def toJson (a : FileAnalysis) : Json := .obj a.members

end FileAnalysis

namespace Code

/-- How names are looked for in the syntax tree of a source. -/
abbrev Structured := (source : String) → Language → (extension : String) → Option Extraction

/-- The names found in a source. -/
structure Names where
  found : Extraction
  /-- Whether a syntax tree was wanted and could not be built. -/
  treeless : Bool := false

/-- The names found in the syntax tree, or by patterns if there is none. -/
def names (structured : Structured) (source : String) (language : Language) (extension : String) :
    Names :=
  let patterns := (PatternSet.ofLanguage language).extract source
  if language.structured then
    match structured source language extension with
    | some found => { found }
    | none => { found := patterns, treeless := true }
  else { found := patterns }

/-- What is known of a source text in a language, and whether a syntax tree was missed. -/
def study (structured : Structured) (source : String) (language : Language)
    (extension path : String) : FileAnalysis × Bool :=
  let ⟨e, treeless⟩ := names structured source language extension
  ({ path
     language := language.name
     size := source.utf8ByteSize
     lines := (Text.split '\n' source.toList).length
     imports := e.imports
     functions := e.functions
     classes := e.classes
     exports := e.exports
     complexity := complexity source
     interfaces := if language = .typescript then some e.interfaces else none
     structs := if language = .go then some e.structs else none }, treeless)

/-- The analysis of a source text, if its extension is known. -/
def analyzeWith (structured : Structured) (source extension path : String) :
    Option FileAnalysis :=
  (Language.ofExtension? extension).map fun language ↦
    (study structured source language extension path).1

/-- The analysis of a source text, if its extension is known. -/
def analyze (source extension path : String) : Option FileAnalysis :=
  analyzeWith Script.extract? source extension path

/-! ### Files -/

/-- What comes of looking at a file. -/
inductive Inspection where
  /-- It is no source file of a known language. -/
  | foreign
  /-- It cannot be read as text. -/
  | unreadable (fault : FileTree.ReadFault)
  /-- It is analysed, without a syntax tree that was wanted if `treeless`. -/
  | analyzed (language : Language) (analysis : FileAnalysis) (treeless : Bool)

/-- The analysis of a file, if there is one. -/
def Inspection.analysis? : Inspection → Option FileAnalysis
  | .analyzed _ a _ => some a
  | _ => none

/-- Looks at a file. -/
def inspectWith (structured : Structured) (files : FileTree) (path : String) : Inspection :=
  let extension := Path.suffix path
  match Language.ofExtension? extension with
  | none => .foreign
  | some language =>
    match files.readText path with
    | .error fault => .unreadable fault
    | .ok source =>
      let (a, treeless) := study structured source language extension (Path.clean path)
      .analyzed language a treeless

/-- Looks at a file. -/
def inspect (files : FileTree) (path : String) : Inspection :=
  inspectWith Script.extract? files path

/-- The analysis of a file, if its extension is known and it can be read as text. -/
def analyzeFileWith (structured : Structured) (files : FileTree) (path : String) :
    Option FileAnalysis :=
  (inspectWith structured files path).analysis?

end Code

end RepoSurvey
