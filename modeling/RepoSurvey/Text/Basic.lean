import RepoSurvey.Text.CaseRanges
import RepoSurvey.Text.WordRanges

/-!
# Characters and lines

Text is handled as `List Char`; the `String` forms at the end are the same operations seen through
`String.toList`. The module fixes the four character classes that everything else rests on (word
characters, blanks, line ends, decimal digits), the lower-case map, and the cuts of a text at one
character, at line ends and at blanks.

The ASCII part of every class is decided before a table is looked at, so that statements about
concrete ASCII text never unfold a table.
-/

namespace RepoSurvey.Text

/-! ### Classes -/

/-- Whether a code point lies in one of the closed ranges. -/
def inRanges (ranges : List (Nat × Nat)) (n : Nat) : Bool :=
  ranges.any fun r ↦ r.1 ≤ n && n ≤ r.2

/-- The characters of words: letters and numbers of any script, and the underscore. -/
def isWord (c : Char) : Bool :=
  if c.toNat < 128 then c.isAlphanum || c == '_' else inRanges wordRanges c.toNat

/-- Whether a non-ASCII code point is a separator or a blank control. -/
def isWideBlank (n : Nat) : Bool :=
  n == 0x85 || n == 0xA0 || n == 0x1680 || (0x2000 ≤ n && n ≤ 0x200A) || n == 0x2028 ||
    n == 0x2029 || n == 0x202F || n == 0x205F || n == 0x3000

/-- The blank characters: space, the ASCII controls 9 to 13 and 28 to 31, and the separators of
other scripts. -/
def isBlank (c : Char) : Bool :=
  if c.toNat < 128 then c == ' ' || (9 ≤ c.toNat && c.toNat ≤ 13) || (28 ≤ c.toNat && c.toNat ≤ 31)
  else isWideBlank c.toNat

/-- The characters that end a line; `\r\n` counts as one end. -/
def isLineEnd (c : Char) : Bool :=
  if c.toNat < 128 then (10 ≤ c.toNat && c.toNat ≤ 13) || (28 ≤ c.toNat && c.toNat ≤ 30)
  else c.toNat == 0x85 || c.toNat == 0x2028 || c.toNat == 0x2029

/-- The value of an ASCII decimal digit. -/
def asciiDigit? (c : Char) : Option Nat :=
  if '0' ≤ c && c ≤ '9' then some (c.toNat - 48) else none

/-- The value of a decimal digit of any script. -/
def digit? (c : Char) : Option Nat :=
  if c.toNat < 128 then asciiDigit? c
  else (digitZeros.find? fun z ↦ z ≤ c.toNat && c.toNat < z + 10).map (c.toNat - ·)

/-- The value of a hexadecimal digit. -/
def hexDigit? (c : Char) : Option Nat :=
  if '0' ≤ c && c ≤ '9' then some (c.toNat - 48)
  else if 'a' ≤ c && c ≤ 'f' then some (c.toNat - 87)
  else if 'A' ≤ c && c ≤ 'F' then some (c.toNat - 55)
  else none

/-! ### Lower case -/

/-- The lower-case form of a code point from 128 on. -/
def lowerWide (n : Nat) : Nat :=
  match lowerRuns.find? fun (first, last, step, _) ↦
      first ≤ n && n ≤ last && (n - first) % step == 0 with
  | some (_, _, _, shift) => (Int.ofNat n + shift).toNat
  | none => n

/-- The lower-case form of one character, apart from the capital sigma; only the dotted capital `İ`
has two characters. -/
def lowerChar (c : Char) : List Char :=
  if c.toNat < 128 then [c.toLower]
  else if c.toNat == 0x130 then ['i', Char.ofNat 0x307]
  else [Char.ofNat (lowerWide c.toNat)]

/-- Whether the first character that is not skipped has case. -/
def meetsCased (cs : List Char) : Bool :=
  match cs.dropWhile fun c ↦ inRanges caseIgnorableRanges c.toNat with
  | [] => false
  | c :: _ => inRanges casedRanges c.toNat

/-- Lower case of a text whose preceding characters, nearest first, are `before`; a capital sigma
that ends a word takes its final form. -/
def lowerFrom : (before : List Char) → List Char → List Char
  | _, [] => []
  | before, c :: rest =>
    let form :=
      if c.toNat == 0x3A3 then
        [Char.ofNat (if meetsCased before && !meetsCased rest then 0x3C2 else 0x3C3)]
      else lowerChar c
    form ++ lowerFrom (c :: before) rest

/-- Lower case of a whole text. -/
def lower (cs : List Char) : List Char := lowerFrom [] cs

/-! ### Cuts -/

/-- The text without the blanks at its front. -/
def trimLeft (cs : List Char) : List Char := cs.dropWhile isBlank

/-- The text without the blanks at its end. -/
def trimRight (cs : List Char) : List Char := (cs.reverse.dropWhile isBlank).reverse

/-- The text without the blanks at both ends. -/
def trim (cs : List Char) : List Char := trimRight (trimLeft cs)

/-- Drops every leading and trailing `mark`. -/
def trimMark (mark : Char) (cs : List Char) : List Char :=
  ((cs.dropWhile (· == mark)).reverse.dropWhile (· == mark)).reverse

/-- The pieces between the occurrences of `sep`; there is one more piece than occurrences. -/
def split (sep : Char) : List Char → List (List Char)
  | [] => [[]]
  | c :: cs =>
    if c = sep then [] :: split sep cs
    else match split sep cs with
      | [] => [[c]]
      | piece :: pieces => (c :: piece) :: pieces

/-- Puts `sep` between the pieces. -/
def join (sep : List Char) : List (List Char) → List Char
  | [] => []
  | [piece] => piece
  | piece :: next :: pieces => piece ++ sep ++ join sep (next :: pieces)

/-- The lines of a text without their ends, with `line` (reversed) as the line begun; a text that
stops at a line end has no empty last line. -/
def linesFrom : (line : List Char) → List Char → List (List Char)
  | [], [] => []
  | line, [] => [line.reverse]
  | line, '\r' :: '\n' :: cs => line.reverse :: linesFrom [] cs
  | line, c :: cs =>
    if isLineEnd c then line.reverse :: linesFrom [] cs else linesFrom (c :: line) cs

/-- The lines of a text without their ends. -/
def lines (cs : List Char) : List (List Char) := linesFrom [] cs

/-- The maximal runs of characters that are not blank, with `word` (reversed) as the run begun. -/
def wordsFrom : (word : List Char) → List Char → List (List Char)
  | [], [] => []
  | word, [] => [word.reverse]
  | word, c :: cs =>
    if isBlank c then
      if word.isEmpty then wordsFrom [] cs else word.reverse :: wordsFrom [] cs
    else wordsFrom (c :: word) cs

/-- The maximal runs of characters that are not blank. -/
def words (cs : List Char) : List (List Char) := wordsFrom [] cs

/-- What follows `front`, if the text begins with it. -/
def dropFront? : (front : List Char) → List Char → Option (List Char)
  | [], cs => some cs
  | _ :: _, [] => none
  | f :: front, c :: cs => if f = c then dropFront? front cs else none

/-- Whether `part` occurs somewhere in the text. -/
def hasInfix (part : List Char) : List Char → Bool
  | [] => part.isEmpty
  | c :: cs => part.isPrefixOf (c :: cs) || hasInfix part cs

/-- Replaces every occurrence of `old` by `new`. -/
def replaceChar (old new : Char) (cs : List Char) : List Char :=
  cs.map fun c ↦ if c = old then new else c

/-! ### Texts as strings -/

/-- `trim` on strings. -/
def strip (s : String) : String := String.ofList (trim s.toList)

/-- `lower` on strings. -/
def lowercase (s : String) : String := String.ofList (lower s.toList)

/-- `split` on strings. -/
def splitString (sep : Char) (s : String) : List String := (split sep s.toList).map String.ofList

/-- `lines` on strings. -/
def splitLines (s : String) : List String := (lines s.toList).map String.ofList

/-- Whether `s` begins with `front`. -/
def startsWith (s front : String) : Bool := front.toList.isPrefixOf s.toList

/-- Whether `s` stops with `back`. -/
def endsWith (s back : String) : Bool := back.toList.reverse.isPrefixOf s.toList.reverse

/-- Whether `part` occurs in `s`. -/
def contains (s part : String) : Bool := hasInfix part.toList s.toList

/-- The string without its first `n` characters. -/
def dropChars (n : Nat) (s : String) : String := String.ofList (s.toList.drop n)

/-- The order of code points, by which strings are sorted. -/
def leString (a b : String) : Bool := !(b < a)

/-- The strings in the order of code points. -/
def sortStrings (ss : List String) : List String := ss.mergeSort leString

end RepoSurvey.Text
