import RepoSurvey.Decimal.Basic
import RepoSurvey.Json.Basic

/-!
# Writing JSON

Two layouts of the same text: `pretty` puts each item on a line of its own, indented by two blanks
a level, and `compact` uses one line without blanks. Both write ASCII only: every other character
is escaped by its UTF-16 code units.
-/

namespace RepoSurvey.Json

/-! ### Scalars -/

/-- One UTF-16 code unit as an escape. -/
def escapeUnit (n : Nat) : List Char :=
  '\\' :: 'u' :: Decimal.padLeft 4 (Nat.toDigits 16 n)

/-- One character of a string, escaped where it is not printable ASCII. -/
def escapeChar (c : Char) : List Char :=
  if c == '"' then ['\\', '"']
  else if c == '\\' then ['\\', '\\']
  else if c == '\n' then ['\\', 'n']
  else if c == '\r' then ['\\', 'r']
  else if c == '\t' then ['\\', 't']
  else if c == '\x08' then ['\\', 'b']
  else if c == '\x0c' then ['\\', 'f']
  else
    let n := c.toNat
    if 0x20 ≤ n && n ≤ 0x7E then [c]
    else if n < 0x10000 then escapeUnit n
    else escapeUnit (0xD800 + (n - 0x10000) / 1024) ++ escapeUnit (0xDC00 + (n - 0x10000) % 1024)

/-- A string between quotes. -/
def quote (s : String) : String :=
  String.ofList ('"' :: (s.toList.flatMap escapeChar ++ ['"']))

/-- The text of a double; the three values that are not finite have words of their own. -/
def floatText (x : Float) : String :=
  match Decimal.finiteText? x with
  | some digits => String.ofList digits
  | none => if x.isNaN then "NaN" else if x < 0 then "-Infinity" else "Infinity"

/-! ### Layouts -/

/-- Puts `sep` between the texts. -/
def between (sep : String) : List String → String
  | [] => ""
  | [s] => s
  | s :: next :: rest => s ++ sep ++ between sep (next :: rest)

/-- A line end and the indentation of a level. -/
def newline (level : Nat) : String := "\n" ++ String.ofList (List.replicate (2 * level) ' ')

mutual

/-- The indented text of a value that stands at the given level. -/
def prettyAt (level : Nat) : Json → String
  | .null => "null"
  | .bool b => if b then "true" else "false"
  | .int n => toString n
  | .float x => floatText x
  | .str s => quote s
  | .arr items =>
    if items.isEmpty then "[]"
    else "[" ++ newline (level + 1) ++
      between ("," ++ newline (level + 1)) (prettyItems (level + 1) items) ++ newline level ++ "]"
  | .obj members =>
    if members.isEmpty then "\x7b\x7d"
    else "\x7b" ++ newline (level + 1) ++
      between ("," ++ newline (level + 1)) (prettyMembers (level + 1) members) ++
      newline level ++ "\x7d"

/-- The indented texts of the items of an array. -/
def prettyItems (level : Nat) : List Json → List String
  | [] => []
  | item :: items => prettyAt level item :: prettyItems level items

/-- The indented texts of the members of an object. -/
def prettyMembers (level : Nat) : List (String × Json) → List String
  | [] => []
  | (name, value) :: members =>
    (quote name ++ ": " ++ prettyAt level value) :: prettyMembers level members

end

/-- The indented text of a value. -/
def pretty (value : Json) : String := prettyAt 0 value

mutual

/-- The text of a value on one line. -/
def compact : Json → String
  | .null => "null"
  | .bool b => if b then "true" else "false"
  | .int n => toString n
  | .float x => floatText x
  | .str s => quote s
  | .arr items => "[" ++ between "," (compactItems items) ++ "]"
  | .obj members => "\x7b" ++ between "," (compactMembers members) ++ "\x7d"

/-- The one-line texts of the items of an array. -/
def compactItems : List Json → List String
  | [] => []
  | item :: items => compact item :: compactItems items

/-- The one-line texts of the members of an object. -/
def compactMembers : List (String × Json) → List String
  | [] => []
  | (name, value) :: members => (quote name ++ ":" ++ compact value) :: compactMembers members

end

end RepoSurvey.Json
