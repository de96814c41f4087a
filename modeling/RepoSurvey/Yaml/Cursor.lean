import RepoSurvey.Yaml.Fault

/-!
# A place in a text

A cursor is a place in a YAML text: what is left of the text, how many characters stand in front,
and in which line and column it is. The classes of characters that the grammar speaks of stand here
too; the end of the text counts as a gap.
-/

namespace RepoSurvey.Yaml

/-! ### Characters -/

/-- The characters that break a line. -/
def isBreak (c : Char) : Bool :=
  c == '\n' || c == '\r' || c == '\x85' || c == '\u2028' || c == '\u2029'

/-- Whether a character, or the end of the text, separates words. -/
def isGap : Option Char → Bool
  | none => true
  | some c => c == ' ' || c == '\t' || isBreak c

/-- Whether a character, or the end of the text, ends a word or a line; a tab does not. -/
def isStop : Option Char → Bool
  | none => true
  | some c => c == ' ' || isBreak c

/-- Whether a line ends here. -/
def isLineEnd : Option Char → Bool
  | none => true
  | some c => isBreak c

/-- The characters of names. -/
def isNameChar (c : Char) : Bool :=
  ('0' ≤ c && c ≤ '9') || ('A' ≤ c && c ≤ 'Z') || ('a' ≤ c && c ≤ 'z') || c == '-' || c == '_'

/-- The characters of tags beside letters and digits. -/
def tagMarks : List Char := "-;/?:@&=+$,_.!~*\x27()[]%".toList

/-- The characters of tags. -/
def isTagChar (c : Char) : Bool :=
  ('0' ≤ c && c ≤ '9') || ('A' ≤ c && c ≤ 'Z') || ('a' ≤ c && c ≤ 'z') || tagMarks.contains c

/-- The characters that a document can have. -/
def isDocumentChar (c : Char) : Bool :=
  let n := c.toNat
  n == 9 || n == 10 || n == 13 || (0x20 ≤ n && n ≤ 0x7E) || n == 0x85 || (0xA0 ≤ n && n ≤ 0xD7FF) ||
    (0xE000 ≤ n && n ≤ 0xFFFD) || 0x10000 ≤ n

/-! ### Cursors -/

/-- A place in a text. -/
structure Cursor where
  rest : List Char
  index : Nat := 0
  line : Nat := 0
  column : Nat := 0

namespace Cursor

/-- The character here. -/
def peek (c : Cursor) : Option Char := c.rest.head?

/-- The character `i` places further on. -/
def ahead (c : Cursor) (i : Nat) : Option Char := c.rest[i]?

/-- The place behind the next character; a byte order mark takes no column. -/
def next (c : Cursor) : Cursor :=
  match c.rest with
  | [] => c
  | a :: rest =>
    if isBreak a then { rest, index := c.index + 1, line := c.line + 1, column := 0 }
    else
      { c with
        rest
        index := c.index + 1
        column := if a == '\uFEFF' then c.column else c.column + 1 }

/-- The place `n` characters further on. -/
def skip : (n : Nat) → Cursor → Cursor
  | 0, c => c
  | n + 1, c => skip n c.next

/-- The characters from here on that all belong to a class, and the place behind them. -/
def span (p : Char → Bool) (c : Cursor) : List Char × Cursor :=
  let run := c.rest.takeWhile p
  (run, c.skip run.length)

/-- The place behind the spaces. -/
def skipSpaces (c : Cursor) : Cursor := (c.span (· == ' ')).2

/-- The place at the end of the line. -/
def skipLine (c : Cursor) : Cursor := (c.span fun a ↦ !isBreak a).2

/-- The place behind a line break, and how it counts in a scalar. -/
def lineBreak? (c : Cursor) : Option (Char × Cursor) :=
  match c.rest with
  | '\r' :: '\n' :: _ => some ('\n', c.skip 2)
  | a :: _ =>
    if a == '\u2028' || a == '\u2029' then some (a, c.next)
    else if isBreak a then some ('\n', c.next)
    else none
  | [] => none

/-- Whether a mark of three equal characters stands alone here. -/
def isMark (mark : Char) (c : Cursor) : Bool :=
  match c.rest with
  | x :: y :: z :: rest => x == mark && y == mark && z == mark && isGap rest.head?
  | _ => false

/-- Whether the mark of a document's start or end stands here. -/
def isDocumentMark (c : Cursor) : Bool := c.isMark '-' || c.isMark '.'

/-- The place at the end of a line on which nothing but a comment may stand. -/
def endLine? (c : Cursor) : Option Cursor :=
  let c := c.skipSpaces
  let c := if c.peek == some '#' then c.skipLine else c
  if isLineEnd c.peek then
    some (match c.lineBreak? with
      | some (_, c) => c
      | none => c)
  else none

end Cursor

end RepoSurvey.Yaml
