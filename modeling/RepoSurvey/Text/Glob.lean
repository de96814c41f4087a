import RepoSurvey.Text.Basic

/-!
# Globs

A glob describes whole texts: `*` stands for any text, `?` for one character, and brackets for one
character of a set, or of none of it if an exclamation mark comes first. A bracket that is not
closed stands for itself, and so does every other character.
-/

namespace RepoSurvey.Text

/-- One piece of a glob. -/
inductive GlobPiece where
  /-- Any text. -/
  | star
  /-- Any character. -/
  | any
  /-- One given character. -/
  | char (c : Char)
  /-- A character of closed ranges, or of none of them. -/
  | set (negated : Bool) (ranges : List (Char × Char))
deriving DecidableEq, Repr

namespace Glob

/-- The ranges that the inside of brackets describes; a range that is empty counts for nothing. -/
def rangesOf : List Char → List (Char × Char)
  | a :: '-' :: b :: cs => if a ≤ b then (a, b) :: rangesOf cs else rangesOf cs
  | c :: cs => (c, c) :: rangesOf cs
  | [] => []

/-- The inside of brackets without the empty ranges at its front. -/
def dropEmptyRanges : List Char → List Char
  | a :: '-' :: b :: cs => if a ≤ b then a :: '-' :: b :: cs else dropEmptyRanges cs
  | cs => cs

/-- The set that the inside of brackets describes. An exclamation mark that comes first only once
empty ranges are dropped negates the set as well, and a range does not begin with it then. -/
def setOf (inside : List Char) : GlobPiece :=
  match inside with
  | '!' :: cs => .set true (rangesOf cs)
  | cs =>
    match dropEmptyRanges cs with
    | '!' :: '-' :: b :: cs => .set true (('-', '-') :: (b, b) :: rangesOf cs)
    | '!' :: cs => .set true (rangesOf cs)
    | cs => .set false (rangesOf cs)

/-- The inside of brackets behind the opening one, and what follows the closing one. A closing
bracket at the front belongs to the inside. -/
def closeSet? (cs : List Char) : Option (List Char × List Char) :=
  let (mark, cs) := match cs with
    | '!' :: cs => (['!'], cs)
    | cs => ([], cs)
  let (bracket, cs) := match cs with
    | ']' :: cs => ([']'], cs)
    | cs => ([], cs)
  match cs.dropWhile (· != ']') with
  | [] => none
  | _ :: rest => some (mark ++ bracket ++ cs.takeWhile (· != ']'), rest)

/-- The pieces of a glob; `fuel` counts characters. -/
def piecesWith : (fuel : Nat) → List Char → List GlobPiece
  | 0, _ => []
  | _, [] => []
  | fuel + 1, c :: cs =>
    if c = '*' then .star :: piecesWith fuel cs
    else if c = '?' then .any :: piecesWith fuel cs
    else if c = '[' then
      match closeSet? cs with
      | some (inside, rest) => setOf inside :: piecesWith fuel rest
      | none => .char c :: piecesWith fuel cs
    else .char c :: piecesWith fuel cs

/-- The pieces of a glob. -/
def pieces (glob : List Char) : List GlobPiece := piecesWith glob.length glob

/-- Whether a piece other than the star accepts a character. -/
def accepts : GlobPiece → Char → Bool
  | .star, _ => true
  | .any, _ => true
  | .char d, c => d = c
  | .set negated ranges, c => (ranges.any fun r ↦ r.1 ≤ c && c ≤ r.2) != negated

/-- Whether a condition holds for some end of a text, the whole text and the empty one included. -/
def anyEnd (holds : List Char → Bool) : List Char → Bool
  | [] => holds []
  | c :: cs => holds (c :: cs) || anyEnd holds cs

/-- Whether pieces describe a text. -/
def fits : List GlobPiece → List Char → Bool
  | [], cs => cs.isEmpty
  | .star :: ps, cs => anyEnd (fits ps) cs
  | p :: ps, c :: cs => accepts p c && fits ps cs
  | _ :: _, [] => false

/-- Whether a glob describes a text. -/
def isMatch (glob text : List Char) : Bool := fits (pieces glob) text

end Glob

end RepoSurvey.Text
