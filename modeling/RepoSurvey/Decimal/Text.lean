import RepoSurvey.Decimal.Basic
import RepoSurvey.Text.Basic

/-!
# Reading numbers

Whole numbers and fractions that people write: with blanks around them, digits of any script, and
single underscores between digits. `nearest` rounds a decimal number to a double.
-/

namespace RepoSurvey.Decimal

open RepoSurvey.Text

/-- The double nearest to `± digits · 10 ^ scale`. -/
def nearest (negative : Bool) (digits : Nat) (scale : Int) : Float :=
  let x :=
    if digits == 0 then 0.0
    else if 400 < scale + Int.ofNat (Nat.log2 digits / 4) then 1.0 / 0.0
    else if scale + Int.ofNat (Nat.log2 digits) < -400 then 0.0
    else if scale < 0 then OfScientific.ofScientific digits true scale.natAbs
    else OfScientific.ofScientific digits false scale.natAbs
  if negative then -x else x

/-- The value of digits in a base, behind a number that is begun. -/
def valueIn (base : Nat) (digits : List Nat) : Nat := digits.foldl (fun n d ↦ n * base + d) 0

/-! ### The parts of a written number -/

/-- The blanks that may stand around a number, other scripts apart. -/
def isMargin (c : Char) : Bool := c == ' ' || (9 ≤ c.toNat && c.toNat ≤ 13)

/-- A character in ASCII: a digit or a blank of another script, or a mark that no number has. -/
def plainChar (c : Char) : Char :=
  if c.toNat < 128 then c
  else if isWideBlank c.toNat then ' '
  else match digit? c with
    | some d => Nat.digitChar d
    | none => '?'

/-- A written number in ASCII without the blanks around it. -/
def plainText (cs : List Char) : List Char :=
  let cs := (cs.map plainChar).dropWhile isMargin
  (cs.reverse.dropWhile isMargin).reverse

/-- Whether a number is negative, and what follows its sign. -/
def takeSign : List Char → Bool × List Char
  | '-' :: cs => (true, cs)
  | '+' :: cs => (false, cs)
  | cs => (false, cs)

/-- Digits without the single underscores that may stand between them. -/
def ungroup (isDigit : Char → Bool) : (afterDigit : Bool) → List Char → Option (List Char)
  | afterDigit, [] => if afterDigit then some [] else none
  | afterDigit, c :: cs =>
    if isDigit c then (ungroup isDigit true cs).map (c :: ·)
    else if c == '_' && afterDigit then ungroup isDigit false cs
    else none

/-- The value of a digit in a base of at most 16. -/
def digitIn? (base : Nat) (c : Char) : Option Nat := (hexDigit? c).filter (· < base)

/-! ### Whole numbers -/

/-- Why a text is no whole number. -/
inductive IntFault where
  | malformed
  /-- It has more digits than are read. -/
  | tooLong (digits : Nat)
deriving DecidableEq, Repr

/-- The greatest number of decimal digits that are read. -/
def longestInt : Nat := 4300

/-- What follows the mark of a base, which may stand in front of digits. -/
def dropBaseMark (base : Nat) : List Char → List Char
  | '0' :: m :: cs =>
    if (base == 16 && (m == 'x' || m == 'X')) || (base == 8 && (m == 'o' || m == 'O')) ||
        (base == 2 && (m == 'b' || m == 'B')) then cs
    else '0' :: m :: cs
  | cs => cs

/-- Reads a whole number in a base. -/
def readInt (base : Nat) (cs : List Char) : Except IntFault Int :=
  let (negative, body) := takeSign (plainText cs)
  let body := dropBaseMark base body
  let isDigit := fun c ↦ (digitIn? base c).isSome
  let run := body.takeWhile fun c ↦ isDigit c || c == '_'
  match ungroup isDigit false run with
  | none => .error .malformed
  | some digits =>
    if base == 10 && longestInt < digits.length then .error (.tooLong digits.length)
    else if run.length < body.length then .error .malformed
    else
      let n := Int.ofNat (valueIn base (digits.filterMap (digitIn? base)))
      .ok (if negative then -n else n)

/-! ### Fractions -/

/-- A number without the underscores between its digits; no other underscore is allowed. -/
def dropUnderscores : (before : Char) → List Char → Option (List Char)
  | _, [] => some []
  | before, '_' :: c :: cs =>
    if (asciiDigit? before).isSome && (asciiDigit? c).isSome then
      (dropUnderscores c cs).map (c :: ·)
    else none
  | _, c :: cs => if c == '_' then none else (dropUnderscores c cs).map (c :: ·)

/-- The value of an exponent and its mark; nothing is no exponent. -/
def readExponent? : List Char → Option Int
  | [] => some 0
  | e :: cs =>
    if e == 'e' || e == 'E' then
      let (negative, digits) := takeSign cs
      if digits.isEmpty || !digits.all (fun c ↦ (asciiDigit? c).isSome) then none
      else
        let n := Int.ofNat (valueIn 10 (digits.filterMap asciiDigit?))
        some (if negative then -n else n)
    else none

/-- Reads a number with a fraction, or one of the words for infinity and for what is no number. -/
def readFloat? (cs : List Char) : Option Float := do
  let cs ← dropUnderscores ' ' (plainText cs)
  let (negative, body) := takeSign cs
  let word := String.ofList (body.map Char.toLower)
  if word = "inf" ∨ word = "infinity" then return if negative then -(1.0 / 0.0) else 1.0 / 0.0
  if word = "nan" then return 0.0 / 0.0
  let isDigit := fun c ↦ (asciiDigit? c).isSome
  let whole := body.takeWhile isDigit
  let (places, rest) := match body.dropWhile isDigit with
    | '.' :: rest => (rest.takeWhile isDigit, rest.dropWhile isDigit)
    | rest => ([], rest)
  if whole.isEmpty && places.isEmpty then none
  let e ← readExponent? rest
  return nearest negative (valueIn 10 ((whole ++ places).filterMap asciiDigit?))
    (e - Int.ofNat places.length)

/-! ### Whole numbers as doubles -/

/-- The double nearest to a whole number, if there is one. -/
def ofInt? (n : Int) : Option Float :=
  (ratio? n.natAbs 1).map fun x ↦ if n < 0 then -x else x

end RepoSurvey.Decimal
