import RepoSurvey.Config.Options
import RepoSurvey.Config.Setting
import RepoSurvey.Files.RealPath
import RepoSurvey.Yaml.Document

/-!
# Configuration files

The configuration file of a repository is a YAML mapping with the keys `ignore`, `dead_code` and
`history`. No file is a configuration that says nothing, and so is an empty one. A setting of the
wrong kind counts as not given.
-/

namespace RepoSurvey

open RepoSurvey.Text

/-- Why there is no configuration. -/
inductive ConfigFault where
  /-- The file cannot be read. -/
  | unreadable (path : String) (fault : FileTree.ReadFault)
  /-- Its text is no YAML document. -/
  | malformed (path : String) (problem : Yaml.Problem)
  | notAMapping
  /-- A scalar of it has no value. -/
  | scalar (fault : Yaml.ScalarFault)
  | hugeNumber (fault : Setting.HugeNumber)
  /-- The path of the file has no real path. -/
  | realPath (fault : FileTree.RealPathFault)
  /-- A path is too long to be looked up. -/
  | tooLong (fault : FileTree.LongPath)
deriving DecidableEq, Repr

namespace Config

/-- The name of the file. -/
def fileName : String := ".archaeologist.yml"

end Config

namespace ConfigFault

/-- Whether the file is simply wrong, so that a survey can go on without it. -/
def isExpected : ConfigFault → Bool
  | .unreadable _ _ | .malformed _ _ | .notAMapping => true
  | _ => false

/-- The wording of a fault. -/
def message : ConfigFault → String
  | .unreadable path fault => "Failed to read " ++ Path.base path ++ ": " ++ fault.message path
  | .malformed path problem => "Failed to parse " ++ Path.base path ++ ": " ++ problem.message
  | .notAMapping => Config.fileName ++ " must contain a mapping at the root"
  | .scalar fault => fault.message
  | .hugeNumber fault => fault.message
  | .realPath fault => fault.message
  | .tooLong fault => fault.message

end ConfigFault

namespace Config

/-! ### Settings of a document -/

/-- The setting that a scalar is. -/
def scalarSetting : Yaml.Scalar → Setting
  | .null => .null
  | .bool b => .bool b
  | .int n => .int n
  | .float x => .float x
  | .str s => .text s
  | .bytes bs => .list (bs.map fun b ↦ .int b.toNat)
  | .date _ | .moment _ => .other

/-- The setting that a node is, if it is a scalar. -/
def itemSetting (d : Yaml.Document) (n : Yaml.Node) : Setting :=
  match d.scalar? n with
  | some s => scalarSetting s
  | none => .other

/-- The setting that a node is. -/
def nodeSetting (d : Yaml.Document) (n : Yaml.Node) : Setting :=
  match d.items? n with
  | some items => .list (items.map (itemSetting d))
  | none => itemSetting d n

/-- The setting under a key of a mapping; nothing if there is no such key or no mapping. -/
def settingAt (d : Yaml.Document) (n : Option Yaml.Node) (key : String) : Setting :=
  match n.bind fun n ↦ d.field? n key with
  | some value => nodeSetting d value
  | none => .null

/-- The configuration that a document says. -/
def ofDocument (root : String) (d : Yaml.Document) : Except Setting.HugeNumber Config := do
  let deadCode := settingAt d (d.field? d.root "dead_code")
  let history := settingAt d (d.field? d.root "history")
  let entryPoints ← (deadCode "entry_points").toTexts?
  let threshold ← (history "cochange_threshold").toFloat?
  let ignore ← (settingAt d (some d.root) "ignore").toTexts?
  return {
    root
    ignore
    includeTests := (deadCode "include_tests").toBool?
    entryPoints
    includeRelated := (history "include_cochange").toBool?
    threshold
    relatedLimit := (history "cochange_limit").toInt?
    concurrency := (history "concurrency").toInt? }

/-! ### The file -/

/-- The real path of the configuration file that belongs to a path: of the one in a directory, or
next to a file. -/
def filePath (files : FileTree) (path : String) : Except ConfigFault String :=
  match files.checkDir path with
  | .error fault => .error (.tooLong fault)
  | .ok isDirectory =>
    (files.realPath
      (if isDirectory then Path.child path fileName
        else if Path.lastName path = fileName then path
        else Path.child (Path.parent path) fileName)).mapError .realPath

/-- The configuration that a text says. -/
def ofText (path root text : String) : Except ConfigFault Config :=
  if strip text = "" then .ok { root }
  else match Yaml.read text with
    | .error (.malformed problem) => .error (.malformed path problem)
    | .error (.scalar fault) => .error (.scalar fault)
    | .ok none => .ok { root }
    | .ok (some d) =>
      if d.isMap d.root then (ofDocument root d).mapError .hugeNumber
      else if (d.scalar? d.root).any fun s ↦ s matches .null then .ok { root }
      else .error .notAMapping

/-- The configuration that belongs to a path. -/
def load (files : FileTree) (path : String) : Except ConfigFault Config :=
  match filePath files path with
  | .error fault => .error fault
  | .ok path =>
    let root := Path.parent path
    match files.checkExists path with
    | .error fault => .error (.tooLong fault)
    | .ok false => .ok { root }
    | .ok true =>
      match files.readText path with
      | .error fault => .error (.unreadable path fault)
      | .ok text => ofText path root text

end Config

end RepoSurvey
