import RepoSurvey.Yaml.Implicit

/-!
# Values of scalars

The value of a scalar is read from its text as its tag says. A tag that is written out can stand in
front of any text, so every reading may fail.
-/

namespace RepoSurvey.Yaml

open RepoSurvey.Decimal RepoSurvey.Text RepoSurvey.Time

/-- The value of a scalar. -/
inductive Scalar where
  | null
  | bool (value : Bool)
  | int (value : Int)
  | float (value : Float)
  | str (value : String)
  | bytes (value : List UInt8)
  | date (value : Date)
  | moment (value : Moment)

/-! ### Numbers -/

/-- A number without underscores, its sign taken off. -/
def bareNumber (text : String) : Except ScalarFault (Bool × List Char) :=
  match text.toList.filter (· != '_') with
  | [] => .error .emptyNumber
  | '-' :: rest => .ok (true, rest)
  | '+' :: rest => .ok (false, rest)
  | cs => .ok (false, cs)

/-- Reads a whole number in a base. -/
def wholeIn (base : Nat) (cs : List Char) : Except ScalarFault Int :=
  match readInt base cs with
  | .ok n => .ok n
  | .error .malformed => .error (.whole base (String.ofList cs))
  | .error (.tooLong digits) => .error (.longWhole digits)

/-- Reads a number with a fraction. -/
def fractionOf (cs : List Char) : Except ScalarFault Float :=
  match readFloat? cs with
  | some x => .ok x
  | none => .error (.fraction (String.ofList cs))

/-- Reads a whole number without its sign. -/
def unsignedWhole (cs : List Char) : Except ScalarFault Int :=
  match cs with
  | [] => .error .emptyNumber
  | ['0'] => .ok 0
  | '0' :: 'b' :: rest => wholeIn 2 rest
  | '0' :: 'x' :: rest => wholeIn 16 rest
  | '0' :: _ => wholeIn 8 cs
  | _ =>
    if cs.contains ':' then do
      let places ← (split ':' cs).mapM (wholeIn 10)
      return places.foldl (fun n d ↦ n * 60 + d) 0
    else wholeIn 10 cs

/-- Reads a whole number. -/
def wholeOf (text : String) : Except ScalarFault Int := do
  let (negative, cs) ← bareNumber text
  let n ← unsignedWhole cs
  return if negative then -n else n

/-- The value of places in base sixty, last place first; `unit` is the value of a one there. -/
def sixtieths : (unit : Nat) → (total : Float) → List Float → Except ScalarFault Float
  | _, total, [] => .ok total
  | unit, total, x :: xs =>
    match ofInt? unit with
    | some one => sixtieths (unit * 60) (total + x * one) xs
    | none => .error .manyPlaces

/-- Reads a number with a fraction without its sign. -/
def unsignedFloat (cs : List Char) : Except ScalarFault Float :=
  if String.ofList cs = ".inf" then .ok (1.0 / 0.0)
  else if String.ofList cs = ".nan" then .ok (0.0 / 0.0)
  else if cs.contains ':' then do
    let places ← (split ':' cs).mapM fractionOf
    sixtieths 1 0 places.reverse
  else fractionOf cs

/-- Reads a number with a fraction. -/
def floatOf (text : String) : Except ScalarFault Float := do
  let (negative, cs) ← bareNumber (String.ofList (lower text.toList))
  let x ← unsignedFloat cs
  return if negative then -x else x

/-! ### Truth values -/

/-- Reads a truth value. -/
def truthOf (text : String) : Except ScalarFault Bool :=
  let word := lowercase text
  if word ∈ ["yes", "true", "on"] then .ok true
  else if word ∈ ["no", "false", "off"] then .ok false
  else .error (.truth word)

/-! ### Moments -/

/-- A date, if the calendar has it. -/
def dateOf (year month day : Nat) : Except ScalarFault Date :=
  if year < 1 ∨ 9999 < year then .error (.moment (.year year))
  else if month < 1 ∨ 12 < month then .error (.moment .month)
  else if day < 1 ∨ monthLength year month < day then .error (.moment .day)
  else .ok ⟨year, month, day⟩

/-- The first six digits of a fraction, as if there were six. -/
def micros (digits : List Char) : Nat :=
  let digits := digits.take 6
  valueIn 10 (digits.filterMap asciiDigit?) * Nat.pow 10 (6 - digits.length)

/-- An offset in microseconds, which must be less than a day. -/
def offsetOf (seconds : Int) : Except ScalarFault Int :=
  if seconds.natAbs < 86400 then .ok (seconds * microsPerSecond)
  else .error (.moment (.offset seconds))

/-- Reads a date or a moment. -/
def momentOf (text : String) : Except ScalarFault Scalar := do
  match writtenMoment? (withoutLineEnd text.toList) with
  | none => .error (.moment .malformed)
  | some m =>
    match m.time with
    | none => return .date (← dateOf m.year m.month m.day)
    | some (hour, minute, second, fraction) =>
      let offset ← offsetOf (m.offset.getD 0)
      let date ← dateOf m.year m.month m.day
      if 23 < hour then .error (.moment .hour)
      if 59 < minute then .error (.moment .minute)
      if 59 < second then .error (.moment .second)
      return .moment { date, hour, minute, second, micro := micros fraction, offset }

/-! ### Binary data -/

/-- The six bits that a character of binary data stands for. -/
def sextet? (c : Char) : Option Nat :=
  if 'A' ≤ c && c ≤ 'Z' then some (c.toNat - 65)
  else if 'a' ≤ c && c ≤ 'z' then some (c.toNat - 71)
  else if '0' ≤ c && c ≤ '9' then some (c.toNat + 4)
  else if c == '+' then some 62
  else if c == '/' then some 63
  else none

/-- The groups of six bits of binary data up to its end, which padding marks; `pending` are those of
the four that are begun and `pads` the marks in a row. Other characters do not count. -/
def sextets : (pending pads : Nat) → List Char → Option (List Nat)
  | pending, _, [] => if pending = 0 then some [] else none
  | pending, pads, c :: cs =>
    if c == '=' then
      if 2 ≤ pending && 4 ≤ pending + pads + 1 then some []
      else sextets pending (if 2 ≤ pending then pads + 1 else pads) cs
    else match sextet? c with
      | some n => (sextets ((pending + 1) % 4) 0 cs).map (n :: ·)
      | none => sextets pending pads cs

/-- The bytes of groups of six bits. -/
def bytesOf : List Nat → List UInt8
  | a :: b :: c :: d :: rest =>
    (a * 4 + b / 16).toUInt8 :: (b % 16 * 16 + c / 4).toUInt8 :: (c % 4 * 64 + d).toUInt8 ::
      bytesOf rest
  | [a, b, c] => [(a * 4 + b / 16).toUInt8, (b % 16 * 16 + c / 4).toUInt8]
  | [a, b] => [(a * 4 + b / 16).toUInt8]
  | _ => []

/-- Reads binary data. -/
def binaryOf (text : String) : Except Problem (List UInt8) :=
  if text.toList.all fun c ↦ c.toNat < 128 then
    match sextets 0 0 text.toList with
    | some ns => .ok (bytesOf ns)
    | none => .error .badBinary
  else .error .badBinary

/-! ### Values -/

/-- The value of a scalar with a tag. -/
def scalarOf (tag : Tag) (text : String) : Except Fault Scalar :=
  match tag with
  | .null => .ok .null
  | .bool => ((truthOf text).map .bool).mapError .scalar
  | .int => ((wholeOf text).map .int).mapError .scalar
  | .float => ((floatOf text).map .float).mapError .scalar
  | .moment => (momentOf text).mapError .scalar
  | .binary => ((binaryOf text).map .bytes).mapError .malformed
  | _ => .ok (.str text)

end RepoSurvey.Yaml
