import RepoSurvey.Imports.Alias

/-!
# Import resolution

A specifier is resolved to a file in two steps. `bases` says which paths it may mean: a relative one
is seen from the importing file, others go through the first alias rule that applies or, if they
look like paths of the project, through the base directory. `candidates` then says which files a
path may mean: itself, with an extension, or an index file below it.
-/

namespace RepoSurvey.Imports

open RepoSurvey.Text

/-- The extensions that an import may leave out, in order of preference. -/
def resolvableExtensions : List String :=
  [".js", ".jsx", ".mjs", ".cjs", ".ts", ".tsx", ".mts", ".cts", ".py", ".java", ".go"]

/-! ### Relative imports of Python -/

/-- The module behind the leading points of a relative import; a last line feed does not count. -/
def moduleOf? (cs : List Char) : Option (List Char) :=
  let isPart := fun c ↦ isWord c || c == '.'
  let cs := if cs.getLast? == some '\n' then cs.dropLast else cs
  if cs.all isPart then some cs else none

/-- The steps up that leading points stand for: one point means the directory itself. -/
def upSteps (points : Nat) : List Char :=
  if points = 1 then "./".toList else (List.replicate (points - 1) "../".toList).flatten

/-- The path of a relative import; other specifiers stay as they are. -/
def pythonChars (cs : List Char) : List Char :=
  let points := cs.takeWhile (· == '.')
  match points, moduleOf? (cs.dropWhile (· == '.')) with
  | [], _ => cs
  | _, none => cs
  | _, some [] => if points.length = 1 then ['.'] else (upSteps points.length).dropLast
  | _, some module => upSteps points.length ++ replaceChar '.' '/' module

/-- The path of a relative import; other specifiers stay as they are. -/
def pythonSpecifier (s : String) : String := String.ofList (pythonChars s.toList)

/-! ### Candidates -/

/-- The files that a path may mean, in order. -/
def candidates (base : String) : List String :=
  let normal := Path.normal base
  normal ::
    ((if Path.extension normal = "" then resolvableExtensions.map (normal ++ ·) else []) ++
      resolvableExtensions.map fun e ↦ Path.append normal ("index" ++ e))

/-! ### Resolving -/

/-- What imports are resolved by. -/
structure Resolver where
  /-- The directory for specifiers that look like paths of the project. -/
  base : Option String := none
  rules : List AliasRule := []
  /-- Whether a path is that of a file. -/
  hasFile : String → Bool

/-- Whether a specifier looks like a path of the project and not like the name of a package. -/
def looksLikePath (specifier : String) : Bool :=
  specifier.toList.contains '/' || startsWith specifier "@" || startsWith specifier "~" ||
    Path.extension specifier != ""

namespace Resolver

/-- The paths that a specifier may mean, in order. -/
def bases (r : Resolver) (importer specifier : String) : List String :=
  if startsWith specifier "." then [Path.append (Path.directory importer) specifier]
  else match r.rules.find? fun rule ↦ rule.applies specifier with
    | some rule => rule.expand specifier
    | none =>
      match r.base.filter (· != "") with
      | some base => if looksLikePath specifier then [Path.append base specifier] else []
      | none => []

/-- The specifier as the importing file means it. -/
def specifierIn (importer specifier : String) : String :=
  if endsWith importer ".py" then pythonSpecifier specifier else specifier

/-- The file that a specifier in a file means, in textual normal form. -/
def resolve (r : Resolver) (importer specifier : String) : Option String :=
  if specifier = "" then none
  else ((r.bases importer (specifierIn importer specifier)).flatMap candidates).find? r.hasFile

end Resolver

end RepoSurvey.Imports
