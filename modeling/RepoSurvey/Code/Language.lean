import RepoSurvey.Text.Basic

/-!
# Languages

The languages whose source files are looked at, and the extensions by which they are told. Of a
`structured` language a syntax tree is built first.
-/

namespace RepoSurvey.Code

/-- A language of source files. -/
inductive Language where
  | javascript
  | typescript
  | python
  | java
  | go
deriving DecidableEq, Repr

namespace Language

/-- All languages. -/
def all : List Language := [.javascript, .typescript, .python, .java, .go]

/-- The written name of a language. -/
def name : Language → String
  | .javascript => "javascript"
  | .typescript => "typescript"
  | .python => "python"
  | .java => "java"
  | .go => "go"

/-- The extensions of the language's files. -/
def extensions : Language → List String
  | .javascript => [".js", ".jsx", ".mjs"]
  | .typescript => [".ts", ".tsx"]
  | .python => [".py"]
  | .java => [".java"]
  | .go => [".go"]

/-- Whether a syntax tree is built of the language's files. -/
def structured : Language → Bool
  | .javascript | .typescript => true
  | _ => false

/-- The language of a written name. -/
def ofName? (s : String) : Option Language := all.find? fun l ↦ l.name == s

/-- The language of files with an extension, whose case does not matter. -/
def ofExtension? (extension : String) : Option Language :=
  all.find? fun l ↦ l.extensions.contains (Text.lowercase extension)

end Language

end RepoSurvey.Code
