import RepoSurvey.Assoc
import RepoSurvey.Files.Tree
import RepoSurvey.Imports.Cleanup
import RepoSurvey.Imports.Resolver
import RepoSurvey.Json.Reader
import RepoSurvey.Text.Quoted

/-!
# Alias settings of a repository

The alias settings stand in a project file, which may extend other files. `chain` lists the files
that count, those that are extended before those that extend them, each once; later files override
earlier ones. A file that cannot be read as a JSON object counts for nothing.

Three things are refused and not merely passed over: a reference to the root of the file system, a
path that is too long to be looked up, and a whole number of more digits than JSON texts may hold.
-/

namespace RepoSurvey.Imports

open RepoSurvey.Text

/-- The members of a JSON object. -/
abbrev Members := List (String × Json)

/-- What makes alias settings unusable. -/
inductive AliasFault where
  /-- A reference names the root of the file system. -/
  | rootReference (path : String)
  /-- A path is too long to be looked up. -/
  | tooLong (fault : FileTree.LongPath)
  /-- A whole number has too many digits. -/
  | hugeInteger (digits : Nat)
deriving DecidableEq, Repr

/-- The names of project files, in order of preference. -/
def projectNames : List String := ["tsconfig.json", "jsconfig.json"]

/-! ### Reading -/

/-- The number of digits in front of a text. -/
def digitCount (cs : List Char) : Nat := (cs.takeWhile fun c ↦ (asciiDigit? c).isSome).length

/-- The JSON object that a text holds, comments and trailing commas apart. -/
def readMembers (text : List Char) : Except AliasFault (Option Members) :=
  let cleaned := dropTrailingCommas (stripChars text)
  match Json.parse cleaned with
  | .ok (.obj members) => .ok (some members)
  | .ok _ => .ok none
  | .error fault =>
    if fault.problem = .hugeInteger then
      .error (.hugeInteger (digitCount ((cleaned.drop fault.position).dropWhile (· == '-'))))
    else .ok none

/-- The JSON object that a file holds. -/
def readFile (files : FileTree) (path : String) : Except AliasFault (Option Members) :=
  match files.readText path with
  | .ok text => readMembers text.toList
  | .error _ => .ok none

/-! ### References to extended files -/

/-- The path that a reference in a file of a directory names. -/
def referencePath (root directory reference : String) : String :=
  if startsWith reference "." || Path.isRooted reference then Path.child directory reference
  else Path.child (Path.child root "node_modules") reference

/-- The files that a reference may mean, in order. -/
def referenceCandidates (root directory reference : String) : Except AliasFault (List String) :=
  let base := referencePath root directory reference
  let below := Path.child base "tsconfig.json"
  if Path.suffix base = ".json" then .ok [base, below]
  else if Path.lastName base = "" then .error (.rootReference base)
  else .ok [base, Path.child (Path.parent base) (Path.lastName base ++ ".json"), below]

/-- The first of some paths that leads to a regular file; they are looked up one after the other. -/
def firstFile? (files : FileTree) : List String → Except AliasFault (Option String)
  | [] => .ok none
  | path :: paths =>
    match files.checkFile path with
    | .error fault => .error (.tooLong fault)
    | .ok true => .ok (some path)
    | .ok false => firstFile? files paths

/-- The real path of the file that a reference means. -/
def resolveReference (files : FileTree) (root directory reference : String) :
    Except AliasFault (Option String) := do
  let candidates ← referenceCandidates root directory reference
  let found ← firstFile? files candidates
  return found.bind fun path ↦ (files.resolve path).map FileTree.pathOf

/-- The references of a file to the files that it extends. -/
def references (members : Members) : List String :=
  match members.lookup "extends" with
  | some (.str reference) => [reference]
  | some (.arr items) => items.filterMap fun
    | .str reference => some reference
    | _ => none
  | _ => []

/-! ### The chain -/

/-- What is met while extended files are gathered. -/
inductive ChainStep where
  /-- A file that counts. -/
  | settings (path : String) (members : Members)
  /-- A file that is met again. -/
  | repeated (path : String)
  /-- A file that is no JSON object. -/
  | unreadable (path : String)
  /-- A reference that means no file. -/
  | unresolved (reference path : String)

/-- What is met from a file on, and the files met so far; `fuel` counts files. -/
def chainFrom (files : FileTree) (root : String) :
    (fuel : Nat) → (path : String) → (visited : List String) →
      Except AliasFault (List ChainStep × List String)
  | 0, _, visited => .ok ([], visited)
  | fuel + 1, path, visited => do
    if path ∈ visited then return ([.repeated path], visited)
    match ← readFile files path with
    | none => return ([.unreadable path], path :: visited)
    | some members =>
      let (steps, visited) ← (references members).foldlM
        (fun (steps, visited) reference ↦ do
          match ← resolveReference files root (Path.parent path) reference with
          | none => return (steps ++ [.unresolved reference path], visited)
          | some parent =>
            let (more, visited) ← chainFrom files root fuel parent visited
            return (steps ++ more, visited))
        (([] : List ChainStep), path :: visited)
      return (steps ++ [.settings path members], visited)

mutual

/-- The number of regular files of a tree. -/
def fileCount : FileTree → Nat
  | .file _ => 1
  | .link _ => 0
  | .dir entries => fileCounts entries

/-- The number of regular files of several trees. -/
def fileCounts : List (String × FileTree) → Nat
  | [] => 0
  | (_, t) :: es => fileCount t + fileCounts es

end

/-- The files that count, with their settings. -/
def settingsOf (steps : List ChainStep) : List (String × Members) :=
  steps.filterMap fun
    | .settings path members => some (path, members)
    | _ => none

/-! ### Settings -/

/-- The alias settings of a repository. -/
structure AliasConfig where
  base : Option String := none
  rules : List AliasRule := []
deriving DecidableEq, Repr

/-- What is gathered along a chain: the base directory, and for each pattern its written targets and
the directory of the file that gives them. -/
structure Gathered where
  base : Option String := none
  patterns : List (String × (List String × String)) := []
deriving DecidableEq, Repr

/-- The written targets of a pattern; what is not a text does not count. -/
def targetTexts : Json → List String
  | .str s => [s]
  | .arr items => items.filterMap fun
    | .str s => some s
    | _ => none
  | _ => []

/-- Puts the patterns of one file over those gathered. -/
def gatherPatterns (directory : String) (patterns : List (String × (List String × String)))
    (members : Members) : List (String × (List String × String)) :=
  members.foldl
    (fun patterns (pattern, value) ↦
      match targetTexts value with
      | [] => patterns
      | targets => Assoc.set pattern (targets, directory) patterns)
    patterns

/-- Puts the settings of one file over those gathered. -/
def gather (g : Gathered) (file : String × Members) : Gathered :=
  let directory := Path.parent file.1
  match file.2.lookup "compilerOptions" with
  | some (.obj options) =>
    let base := match options.lookup "baseUrl" with
      | some (.str s) => some (Path.normal (Path.append directory s))
      | _ => g.base
    let patterns := match options.lookup "paths" with
      | some (.obj members) => gatherPatterns directory g.patterns members
      | _ => g.patterns
    { base, patterns }
  | _ => g

/-- The settings that a chain of files amounts to. -/
def AliasConfig.ofChain (chain : List (String × Members)) : AliasConfig :=
  let g := chain.foldl gather {}
  let rules := g.patterns.map fun (pattern, targets, directory) ↦
    AliasRule.ofTexts (g.base.getD directory) pattern targets
  { base := g.base, rules := rules.mergeSort AliasRule.precedes }

/-- The project file of a repository. -/
def projectFile? (files : FileTree) (root : String) : Except AliasFault (Option String) :=
  firstFile? files (projectNames.map (Path.child root))

/-- How alias settings are loaded: what is met on the way, or the project file that is no JSON
object. -/
inductive AliasLoad where
  | none
  | malformed (path : String)
  | chain (steps : List ChainStep)

/-- Loads the alias settings of a repository. -/
def loadAliases (files : FileTree) (root : String) : Except AliasFault AliasLoad := do
  match ← projectFile? files root with
  | none => return .none
  | some path =>
    match ← readFile files path with
    | none => return .malformed path
    | some _ =>
      let real := ((files.resolve path).map FileTree.pathOf).getD path
      let (steps, _) ← chainFrom files root (fileCount files + 1) real []
      return .chain steps

/-- The settings that were loaded. -/
def AliasLoad.config : AliasLoad → AliasConfig
  | .chain steps => AliasConfig.ofChain (settingsOf steps)
  | _ => {}

/-- The alias settings of a repository. -/
def aliasConfig (files : FileTree) (root : String) : Except AliasFault AliasConfig :=
  (loadAliases files root).map AliasLoad.config

/-- The resolver for a repository's files with given settings. -/
def AliasConfig.resolver (config : AliasConfig) (files : FileTree) : Resolver :=
  { base := config.base, rules := config.rules, hasFile := files.isFile }

/-- The wording of a fault. -/
def AliasFault.message : AliasFault → String
  | .rootReference path => "PosixPath(" ++ quoted path ++ ") has an empty name"
  | .tooLong fault => fault.message
  | .hugeInteger digits =>
    s!"Exceeds the limit ({Json.longestInteger} digits) for integer string conversion: " ++
      s!"value has {digits} digits; use sys.set_int_max_str_digits() to increase the limit"

end RepoSurvey.Imports
