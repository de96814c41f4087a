import RepoSurvey.Code.Findings
import RepoSurvey.Code.Language
import RepoSurvey.Script.Statement

/-!
# Syntax trees of scripts

`parseScript` reads a whole source. It yields nothing if the source is not a script of its dialect,
so that a tree never holds a part that was guessed.
-/

namespace RepoSurvey.Script

/-- One rule for each goal, given how to read the constructs inside. -/
def rule (parse : Grammar) : Grammar
  | .statement => statement parse
  | .block => statementBlock parse
  | .expressions => expressions parse
  | .expression => expression parse
  | .operand => operand parse
  | .constructor => constructor parse
  | .pattern => readPattern parse
  | .type => readType parse
  | .simpleType => simpleType parse
  | .element => readElement parse

/-- Reads a construct whose nesting is at most `depth`. -/
def parseWith : (depth : Nat) → Grammar
  | 0 => fun _ ↦ failure
  | depth + 1 => rule (parseWith depth)

/-- The number of goals that can be open at once in a source of `n` characters. -/
def depthOf (n : Nat) : Nat := 8 * (n + 2)

/-- Reads the line in front of a script that names its interpreter. -/
def interpreterLine : Reader Unit := do
  let cs := (← get).rest
  if ['#', '!'].isPrefixOf cs then
    raw "hash_bang_line" true (cs.takeWhile fun c ↦ c != '\n').length
  settle

/-- Reads statements up to the end of the source. -/
def program (parse : Grammar) : Reader Unit := do
  interpreterLine
  many do
    if ← atEnd then return false
    parse .statement
    return true

/-- The syntax tree of a source, if it is a script of the dialect. -/
def parseScript (dialect : Dialect) (source : List Char) : Option Code.Node := do
  let n := source.length
  let ((), s) ← (program (parseWith (depthOf n))).run
    { dialect, rest := source, left := n, offset := 0 }
  let root := gather "program" 0 s.done
  return attach s.comments.reverse root

/-- The dialect of a file of a language, told by the file's extension in lower case. -/
def dialect? (language : Code.Language) (extension : String) : Option Dialect :=
  match language with
  | .javascript => some ⟨false, true⟩
  | .typescript => some ⟨true, extension == ".tsx"⟩
  | _ => none

/-- The names found in a source, if it is a script of its dialect. -/
def extract? (source : String) (language : Code.Language) (extension : String) :
    Option Extraction := do
  let dialect ← dialect? language (Text.lowercase extension)
  let root ← parseScript dialect source.toList
  return Code.extract (Text.encode source) root

end RepoSurvey.Script
