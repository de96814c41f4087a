import RepoSurvey.Text.Basic

/-!
# Comments in JSON

Configuration files may hold comments and trailing commas. `stripComments` removes comments outside
of strings; a line comment leaves the end of its line. `dropTrailingCommas` then removes each comma
that has nothing but blanks before a closing bracket, wherever it stands.
-/

namespace RepoSurvey.Imports

open RepoSurvey.Text

/-- Where a reader of JSON with comments stands. -/
inductive Mode where
  | plain
  | string
  | lineComment
  | blockComment
deriving DecidableEq, Repr

/-- What is left of a text without its comments. -/
def stripFrom : Mode → List Char → List Char
  | _, [] => []
  | .plain, '/' :: '/' :: cs => stripFrom .lineComment cs
  | .plain, '/' :: '*' :: cs => stripFrom .blockComment cs
  | .plain, c :: cs => c :: stripFrom (if c = '"' then .string else .plain) cs
  | .string, '\\' :: c :: cs => '\\' :: c :: stripFrom .string cs
  | .string, c :: cs => c :: stripFrom (if c = '"' then .plain else .string) cs
  | .lineComment, c :: cs =>
    if c = '\n' then c :: stripFrom .plain cs else stripFrom .lineComment cs
  | .blockComment, '*' :: '/' :: cs => stripFrom .plain cs
  | .blockComment, _ :: cs => stripFrom .blockComment cs

/-- A text without its comments. -/
def stripChars (cs : List Char) : List Char := stripFrom .plain cs

/-- Whether only blanks stand before a closing bracket. -/
def closesNext (cs : List Char) : Bool :=
  match cs.dropWhile isBlank with
  | c :: _ => c == '}' || c == ']'
  | [] => false

/-- A text without the commas that have only blanks before a closing bracket. -/
def dropTrailingCommas : List Char → List Char
  | [] => []
  | c :: cs =>
    if c = ',' ∧ closesNext cs then dropTrailingCommas cs else c :: dropTrailingCommas cs

/-- A text without its comments. -/
def stripComments (s : String) : String := String.ofList (stripChars s.toList)

end RepoSurvey.Imports
