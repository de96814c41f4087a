import RepoSurvey.Text.Glob

/-!
# Ignore rules

An ignore rule is a glob that is compared with relative paths in lower case. A rule without a slash
also ignores a path with any component that it describes; a rule with a slash also ignores every
path below the one that it names literally.
-/

namespace RepoSurvey

open RepoSurvey.Text

/-- A pattern of paths to leave out. -/
structure IgnoreRule where
  pattern : String
deriving DecidableEq, Repr

namespace IgnoreRule

/-- The pattern as it is compared: without blanks and slashes at its ends, with slashes for
backslashes, in lower case. -/
def normalChars (pattern : List Char) : List Char :=
  lower (trimMark '/' (replaceChar '\\' '/' (trim pattern)))

/-- The rules that patterns ask for; a pattern of nothing but blanks and slashes asks for none. -/
def ofPatterns (patterns : List String) : List IgnoreRule :=
  patterns.filterMap fun p ↦
    match normalChars p.toList with
    | [] => none
    | cs => some ⟨String.ofList cs⟩

/-- The text without the slashes at its end. -/
def dropSlashes (cs : List Char) : List Char := (cs.reverse.dropWhile (· == '/')).reverse

/-- Whether a pattern ignores a path in lower case. -/
def matchesLower (pattern target : List Char) : Bool :=
  Glob.isMatch pattern target ||
    if pattern.contains '/' then (dropSlashes pattern ++ ['/']).isPrefixOf target
    else (split '/' target).any fun part ↦ Glob.isMatch pattern part

/-- Whether a rule ignores a relative path. -/
def ignores (rule : IgnoreRule) (path : String) : Bool :=
  rule.pattern != "" && matchesLower rule.pattern.toList (lower path.toList)

end IgnoreRule

/-- Whether some rule ignores a relative path. -/
def isIgnored (rules : List IgnoreRule) (path : String) : Bool := rules.any fun r ↦ r.ignores path

end RepoSurvey
