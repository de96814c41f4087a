import RepoSurvey.Time.Moment
import RepoSurvey.Yaml.Node

/-!
# What plain scalars are

A plain scalar without a tag is what it looks like: a truth value, a number, nothing, a date, one of
the two special keys, or else a text. The forms are those of YAML 1.1: `yes` is a truth value, `010`
a number in base eight, `1:30` one in base sixty, and an exponent needs a point and a sign.
-/

namespace RepoSurvey.Yaml

open RepoSurvey.Decimal RepoSurvey.Text

/-! ### Parts of numbers -/

/-- Whether a character is a decimal digit. -/
def isDigit (c : Char) : Bool := (asciiDigit? c).isSome

/-- Whether a character can stand inside a number. -/
def isDigitOrGap (c : Char) : Bool := isDigit c || c == '_'

/-- The text without a sign in front. -/
def unsigned (cs : List Char) : List Char := (takeSign cs).2

/-- Whether a text is a run of at least one character of a class. -/
def isRun (p : Char → Bool) (cs : List Char) : Bool := !cs.isEmpty && cs.all p

/-- Whether a text begins with a digit and goes on as a number does. -/
def isGrouped : List Char → Bool
  | [] => false
  | c :: cs => isDigit c && cs.all isDigitOrGap

/-- Whether a text is one place of a number in base sixty, behind the first. -/
def isSixtieth : List Char → Bool
  | [a] => isDigit a
  | [a, b] => '0' ≤ a && a ≤ '5' && isDigit b
  | _ => false

/-! ### Whole numbers and fractions -/

/-- Whether a text looks like a whole number. -/
def isInt (cs : List Char) : Bool :=
  match unsigned cs with
  | ['0'] => true
  | '0' :: 'b' :: rest => isRun (fun c ↦ c == '0' || c == '1' || c == '_') rest
  | '0' :: 'x' :: rest => isRun (fun c ↦ (hexDigit? c).isSome || c == '_') rest
  | '0' :: rest => isRun (fun c ↦ ('0' ≤ c && c ≤ '7') || c == '_') rest
  | body =>
    match split ':' body with
    | first :: places => isGrouped first && places.all isSixtieth
    | [] => false

/-- Whether a text is an exponent with a sign, or nothing. -/
def isExponent : List Char → Bool
  | [] => true
  | e :: sign :: digits =>
    (e == 'e' || e == 'E') && (sign == '-' || sign == '+') && isRun isDigit digits
  | _ => false

/-- Whether a text is a fraction behind its point, with or without an exponent. -/
def isFraction (cs : List Char) : Bool := isExponent (cs.dropWhile isDigitOrGap)

/-- Whether a text looks like a number with a fraction. -/
def isFloat (cs : List Char) : Bool :=
  let body := unsigned cs
  let whole := body.takeWhile (· != '.')
  match body.dropWhile (· != '.') with
  | [] => false
  | _ :: rest =>
    if whole.isEmpty then
      ["inf", "Inf", "INF"].contains (String.ofList rest) ||
      (body.length == cs.length && (["nan", "NaN", "NAN"].contains (String.ofList rest) ||
        (isRun isDigit (rest.take 1) && isFraction rest)))
    else match split ':' whole with
      | [whole] => isGrouped whole && isFraction rest
      | first :: places => isGrouped first && places.all isSixtieth && rest.all isDigitOrGap
      | [] => false

/-! ### Moments -/

/-- A moment as it is written. -/
structure WrittenMoment where
  year : Nat
  month : Nat
  day : Nat
  /-- Hour, minute, second and the digits of a fraction. -/
  time : Option (Nat × Nat × Nat × List Char) := none
  /-- The offset in seconds, if one is written. -/
  offset : Option Int := none
deriving DecidableEq, Repr

/-- The value of a run of `least` to `most` digits in front of a text, and the rest. -/
def shortNumber? (least most : Nat) (cs : List Char) : Option (Nat × List Char) :=
  let run := cs.takeWhile isDigit
  if least ≤ run.length && run.length ≤ most then
    some (valueIn 10 (run.filterMap asciiDigit?), cs.dropWhile isDigit)
  else none

/-- Reads an offset, which may be missing. -/
def offset? (cs : List Char) : Option (Option Int) := do
  if cs.isEmpty then return none
  match cs.dropWhile fun c ↦ c == ' ' || c == '\t' with
  | ['Z'] => return some 0
  | sign :: rest =>
    if sign != '-' && sign != '+' then none
    let (hour, rest) ← shortNumber? 1 2 rest
    let (minute, rest) ← match rest with
      | ':' :: rest => shortNumber? 2 2 rest
      | rest => some (0, rest)
    if !rest.isEmpty then none
    let seconds := Int.ofNat (hour * 3600 + minute * 60)
    return some (if sign == '-' then -seconds else seconds)
  | [] => none

/-- Reads a time of day and an offset. -/
def writtenTime? (cs : List Char) : Option ((Nat × Nat × Nat × List Char) × Option Int) := do
  let (hour, rest) ← shortNumber? 1 2 cs
  let (minute, rest) ← shortNumber? 2 2 (← dropFront? [':'] rest)
  let (second, rest) ← shortNumber? 2 2 (← dropFront? [':'] rest)
  let (fraction, rest) := match rest with
    | '.' :: rest => (rest.takeWhile isDigit, rest.dropWhile isDigit)
    | rest => ([], rest)
  return ((hour, minute, second, fraction), ← offset? rest)

/-- Reads a date, or a date and a time of day. -/
def writtenMoment? (cs : List Char) : Option WrittenMoment := do
  let (year, rest) ← shortNumber? 4 4 cs
  let (month, rest) ← shortNumber? 1 2 (← dropFront? ['-'] rest)
  let (day, rest) ← shortNumber? 1 2 (← dropFront? ['-'] rest)
  match rest with
  | [] => return { year, month, day }
  | c :: rest =>
    let blank := fun c ↦ c == ' ' || c == '\t'
    let rest ← if c == 'T' || c == 't' then some rest
      else if blank c then some (rest.dropWhile blank) else none
    let (time, offset) ← writtenTime? rest
    return { year, month, day, time := some time, offset }

/-- Whether a text looks like a moment; a date alone has two digits for month and day. -/
def isMoment (cs : List Char) : Bool :=
  match writtenMoment? cs with
  | some m => m.time.isSome || cs.length == 10
  | none => false

/-! ### The tag of a plain scalar -/

/-- The words for truth values. -/
def truthWords : List String :=
  ["yes", "Yes", "YES", "no", "No", "NO", "true", "True", "TRUE", "false", "False", "FALSE",
    "on", "On", "ON", "off", "Off", "OFF"]

/-- The words for nothing. -/
def nullWords : List String := ["~", "null", "Null", "NULL", ""]

/-- The text without a line end behind it, which does not count for what it looks like. -/
def withoutLineEnd (cs : List Char) : List Char :=
  match cs.reverse with
  | '\n' :: c :: rest => (c :: rest).reverse
  | _ => cs

/-- What a plain scalar is. -/
def Tag.ofText (text : String) : Tag :=
  let cs := withoutLineEnd text.toList
  let word := String.ofList cs
  if truthWords.contains word then .bool
  else if isFloat cs then .float
  else if isInt cs then .int
  else if word = "<<" then .merge
  else if nullWords.contains word then .null
  else if isMoment cs then .moment
  else if word = "=" then .value
  else if word = "!" ∨ word = "&" ∨ word = "*" then .other (commonFront ++ "yaml")
  else .str

end RepoSurvey.Yaml
