import RepoSurvey.Config.File
import RepoSurvey.Files.Scan
import RepoSurvey.Imports.AliasConfig
import RepoSurvey.Imports.Graph
import RepoSurvey.Log

/-!
# Notes of a survey

What a survey notes on its way, apart from what the history notes of itself. Each note is a record
of some level; what is merely skipped is noted at the lowest.
-/

namespace RepoSurvey

/-- Something that is noted on the way. -/
inductive Note where
  /-- The configuration file is wrong and not used. -/
  | configIgnored (fault : ConfigFault)
  | begun (root : String)
  /-- A link into the directory that is scanned is not followed. -/
  | innerLink (path : String)
  /-- A directory is met again. -/
  | revisited (path : String)
  | unreadable (path : String) (fault : FileTree.ReadFault)
  /-- A source is no script of its dialect. -/
  | brokenScript (dialect : Script.Dialect)
  /-- Names are looked for by patterns, as there is no syntax tree. -/
  | treeless (path : String)
  | analyzed (files : Nat)
  /-- The project file is no JSON object. -/
  | aliasesMalformed (path : String)
  | aliasesRepeated (path : String)
  | aliasesUnreadable (path : String)
  | aliasesUnresolved (reference path : String)
  | graph (nodes edges unresolved : Nat)
  /-- The work on a batch of files begins. -/
  | batch (first last total : Nat)
deriving DecidableEq, Repr

namespace Note

/-- The level of a note. -/
def level : Note → Level
  | .configIgnored _ => .warning
  | .begun _ | .analyzed _ => .info
  | _ => .debug

/-- The wording of a note. -/
def message : Note → String
  | .configIgnored fault => "Ignoring repository configuration: " ++ fault.message
  | .begun root => "Analyzing " ++ root
  | .innerLink path => s!"Skipping symlink {path} into the analysed tree"
  | .revisited path => "Skipping already visited directory " ++ path
  | .unreadable path fault => s!"Skipping unreadable file {path}: {fault.message path}"
  | .brokenScript dialect => s!"Syntax errors reported by {dialect.name} grammar; falling back"
  | .treeless path => "Falling back to pattern extraction for " ++ path
  | .analyzed files => s!"Analyzed {files} source files"
  | .aliasesMalformed path => "Ignoring malformed " ++ Path.lastName path
  | .aliasesRepeated path => "Skipping repeated config in extends chain: " ++ path
  | .aliasesUnreadable path => "Skipping unreadable config " ++ path
  | .aliasesUnresolved reference path =>
    s!"Cannot resolve extends {Text.quoted reference} from {path}"
  | .graph nodes edges unresolved =>
    s!"Call graph: {nodes} nodes, {edges} edges, {unresolved} unresolved imports"
  | .batch first last total => s!"Enriching files {first}-{last} of {total}"

/-- The record of a note. -/
def record (n : Note) : Record := ⟨n.level, n.message⟩

/-- What is noted of a look at a file. -/
def ofInspection (path : String) : Code.Inspection → List Note
  | .unreadable fault => [.unreadable path fault]
  | .analyzed language _ true =>
    ((Script.dialect? language (Text.lowercase (Path.suffix path))).map Note.brokenScript).toList ++
      [.treeless path]
  | _ => []

/-- What is noted of alias settings that are loaded. -/
def ofAliases : Imports.AliasLoad → List Note
  | .none => []
  | .malformed path => [.aliasesMalformed path]
  | .chain steps => steps.filterMap fun
    | .settings _ _ => none
    | .repeated path => some (.aliasesRepeated path)
    | .unreadable path => some (.aliasesUnreadable path)
    | .unresolved reference path => some (.aliasesUnresolved reference path)

/-- What is noted of an import graph and its resolver. -/
def ofGraph (g : ImportGraph) (r : Imports.Resolver) (analyses : List FileAnalysis) : Note :=
  .graph g.length (Imports.edgeCount g) (Imports.unresolvedCount r analyses)

end Note

end RepoSurvey
