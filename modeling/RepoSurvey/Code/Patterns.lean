import RepoSurvey.Code.Language
import RepoSurvey.Extraction
import RepoSurvey.Text.Pattern

/-!
# Pattern tables

Names found without a syntax tree, by patterns of text. A `PatternSet` lists for each bucket the
patterns whose groups go into it. The tables see no difference between code, strings and comments;
they are the only way for the languages that have no grammar here, and the last way for sources that
are not well formed.
-/

namespace RepoSurvey.Code

open RepoSurvey.Text RepoSurvey.Text.Pattern

/-- The patterns for one language. -/
structure PatternSet where
  imports : List Pattern
  functions : List Pattern
  classes : List Pattern
  exports : List Pattern := []
  interfaces : List Pattern := []
  structs : List Pattern := []
  /-- A block of imports, one quoted text a line. -/
  groupedImports : Option Pattern := none
  /-- Whether a group is a list of names between commas, of which the first words count. -/
  splitsLists : Bool := false
  /-- Words that are never names. -/
  reserved : List String := []

/-! ### Classes of characters -/

/-- The characters of names that may hold a dollar sign. -/
def isNamePart (c : Char) : Bool := isWord c || c == '$'

/-- The characters of dotted names. -/
def isPathPart (c : Char) : Bool := isWord c || c == '.'

/-- Either quote. -/
def isQuote (c : Char) : Bool := c == '\'' || c == '"'

/-- A character other than some. -/
def isNone (cs : List Char) (c : Char) : Bool := !cs.contains c

/-- A name that may hold dollar signs. -/
def named : Pattern := many1 isNamePart

/-- A group of the text in quotes. -/
def quoted : Pattern :=
  one isQuote ++ group (many1 (isNone ['\'', '"', '\n'])) ++ one isQuote

/-! ### Scripts -/

/-- The patterns for imports of scripts. -/
def scriptImports : List Pattern :=
  [word "import" ++ blanks1 ++ notAhead ("type" ++ wordEdge) ++
      run (isNone [';', '\'', '"']) true ++ wordEdge ++ "from" ++ blanks ++ quoted,
    lineStart ++ blanks ++ "import" ++ blanks ++ quoted,
    word "require" ++ blanks ++ "(" ++ blanks ++ quoted ++ blanks ++ ")",
    word "import" ++ blanks ++ "(" ++ blanks ++ quoted ++ blanks ++ ")",
    word "export" ++ blanks1 ++
      anyOf ["*", "*" ++ blanks1 ++ "as" ++ blanks1 ++ named,
        "\x7b" ++ many (isNone ['}']) ++ "\x7d"] ++
      blanks ++ "from" ++ blanks ++ quoted]

/-- The word `async` with blanks behind it, or nothing. -/
def async : Pattern := optional ("async" ++ blanks1)

/-- The patterns for functions of scripts. -/
def scriptFunctions : List Pattern :=
  [word "function" ++ blanks ++ optional "*" ++ blanks ++ group named ++ blanks ++ "(",
    wordEdge ++ oneOf ["const", "let", "var"] ++ blanks1 ++ group named ++ blanks ++ "=" ++
      blanks ++ async ++
      anyOf ["function" ++ wordEdge,
        "(" ++ many (isNone [')']) ++ ")" ++ blanks ++ "=>",
        named ++ blanks ++ "=>"],
    group named ++ blanks ++ ":" ++ blanks ++ async ++ "function" ++ wordEdge]

/-- The patterns for classes of scripts. -/
def scriptClasses : List Pattern := [word "class" ++ blanks1 ++ group named]

/-- The patterns for exports of scripts. -/
def scriptExports : List Pattern :=
  [word "export" ++ blanks1 ++ async ++
      anyOf ["class", "function" ++ blanks ++ optional "*", "const", "let", "var"] ++
      blanks1 ++ group named,
    word "export" ++ blanks1 ++ group "default" ++ wordEdge,
    word "export" ++ blanks1 ++ group "*" ++ blanks1 ++ "from" ++ wordEdge,
    word "module.exports" ++ blanks ++ "=" ++ blanks ++ group named ++ blanks ++ optional ";" ++
      blanks ++ lineEnd,
    wordEdge ++ optional "module." ++ "exports." ++ group named ++ blanks ++ "="]

/-- The patterns for exports that only scripts with types have. -/
def typeExports : List Pattern :=
  [word "export" ++ blanks1 ++ optional ("declare" ++ blanks1) ++
    anyOf ["abstract" ++ blanks1 ++ "class", "interface", "type", "enum"] ++ blanks1 ++ group named]

/-- The tables for JavaScript. -/
def javascript : PatternSet where
  imports := scriptImports
  functions := scriptFunctions
  classes := scriptClasses
  exports := scriptExports

/-- The tables for TypeScript. -/
def typescript : PatternSet where
  imports := scriptImports
  functions := scriptFunctions
  classes := scriptClasses
  exports := scriptExports ++ typeExports
  interfaces := [word "interface" ++ blanks1 ++ group named]

/-! ### Python -/

/-- The word `as` and a name, between blanks, or nothing. -/
def renamed : Pattern := optional (blanks1 ++ "as" ++ blanks1 ++ many1 isWord)

/-- The tables for Python. -/
def python : PatternSet where
  imports :=
    [lineStart ++ blanks ++ "from" ++ blanks1 ++ group (many1 isPathPart) ++ blanks1 ++ "import" ++
        wordEdge,
      lineStart ++ blanks ++ "import" ++ blanks1 ++
        group (many1 isPathPart ++ renamed ++
          repeated (blanks ++ "," ++ blanks ++ many1 isPathPart ++ renamed))]
  functions :=
    [lineStart ++ blanks ++ async ++ "def" ++ blanks1 ++ group (many1 isWord) ++ blanks ++ "("]
  classes := [lineStart ++ blanks ++ "class" ++ blanks1 ++ group (many1 isWord)]
  splitsLists := true

/-! ### Java -/

/-- The characters of the type in front of a method's name. -/
def isTypePart (c : Char) : Bool := isWord c || "<>[]?,.".toList.contains c

/-- The tables for Java. -/
def java : PatternSet where
  imports :=
    [lineStart ++ blanks ++ "import" ++ blanks1 ++ optional ("static" ++ blanks1) ++
      group (many1 isPathPart ++ optional ".*") ++ blanks ++ ";"]
  functions :=
    [lineStart ++ many (fun c ↦ c == ' ' || c == '\t') ++
      repeated
        (oneOf ["public", "private", "protected", "static", "final", "abstract", "synchronized"] ++
          blanks1) ++
      many1 isTypePart ++ optional ("<" ++ many (isNone ['>', '\n']) ++ ">") ++ blanks1 ++
      group (many1 isWord) ++ blanks ++ "(" ++ many (isNone [')']) ++ ")" ++ blanks ++
      optional ("throws" ++ blanks1 ++
        many1 (fun c ↦ isPathPart c || c == ',' || isBlank c)) ++
      "\x7b"]
  classes := [word "class" ++ blanks1 ++ group (many1 isWord)]
  reserved := ["if", "for", "while", "switch", "catch", "synchronized", "return", "new", "else"]

/-! ### Go -/

/-- A group of the text in double quotes. -/
def doubleQuoted : Pattern := "\"" ++ group (many1 (isNone ['"', '\n'])) ++ "\""

/-- The tables for Go. -/
def go : PatternSet where
  imports :=
    [lineStart ++ blanks ++ "import" ++ blanks1 ++ optional (many1 isPathPart ++ blanks1) ++
      doubleQuoted]
  functions :=
    [lineStart ++ "func" ++ blanks1 ++ optional ("(" ++ many (isNone [')']) ++ ")" ++ blanks) ++
      group (many1 isWord) ++ blanks ++ one (fun c ↦ c == '[' || c == '(')]
  classes := []
  structs :=
    [lineStart ++ blanks ++ "type" ++ blanks1 ++ group (many1 isWord) ++ blanks1 ++ "struct" ++
      wordEdge]
  groupedImports :=
    some (lineStart ++ blanks ++ "import" ++ blanks ++ "(" ++ group (many (isNone [')'])) ++ ")")

/-! ### Extraction -/

namespace PatternSet

/-- The patterns of a bucket. -/
def get (ps : PatternSet) : Bucket → List Pattern
  | .imports => ps.imports
  | .functions => ps.functions
  | .classes => ps.classes
  | .exports => ps.exports
  | .interfaces => ps.interfaces
  | .structs => ps.structs

/-- The first word of each item of a list between commas. -/
def listedNames (capture : List Char) : List (List Char) :=
  (split ',' capture).filterMap fun item ↦ (words item).head?

/-- The names that a captured text holds. -/
def namesOf (ps : PatternSet) (capture : List Char) : List (List Char) :=
  if ps.splitsLists then listedNames capture else [capture]

/-- The names that the patterns of a bucket find in a text. -/
def names (ps : PatternSet) (b : Bucket) (text : List Char) : List String :=
  (((ps.get b).flatMap fun p ↦ p.captures text).flatMap ps.namesOf).map String.ofList

/-- The texts in double quotes inside the blocks of imports. -/
def groupedNames (ps : PatternSet) (text : List Char) : List String :=
  match ps.groupedImports with
  | none => []
  | some block =>
    ((block.captures text).flatMap fun lines ↦ doubleQuoted.captures lines).map String.ofList

/-- What the patterns find in a text, bucket by bucket. -/
def findings (ps : PatternSet) (text : List Char) : List Finding :=
  (Bucket.all.flatMap fun b ↦
    ((ps.names b text).filter fun n ↦ !ps.reserved.contains n).map fun n ↦ (b, some n)) ++
  (ps.groupedNames text).map fun n ↦ (.imports, some n)

/-- The names that the patterns find in a text. -/
def extract (ps : PatternSet) (text : String) : Extraction :=
  Extraction.ofFindings (ps.findings text.toList)

/-- The tables for a language. -/
def ofLanguage : Language → PatternSet
  | .javascript => Code.javascript
  | .typescript => Code.typescript
  | .python => Code.python
  | .java => Code.java
  | .go => Code.go

end PatternSet

end RepoSurvey.Code
