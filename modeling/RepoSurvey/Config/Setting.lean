import RepoSurvey.Decimal.Text
import RepoSurvey.Json.Printer

/-!
# Settings

A setting is a value as it stands in a configuration file. It is taken for a truth value, a number
or a list of texts as far as it can be; where it cannot, the setting counts as not given. Only a
whole number is refused that is beyond all doubles, or too long to be written as a text.
-/

namespace RepoSurvey

open RepoSurvey.Text

/-- A value in a configuration file. -/
inductive Setting where
  | null
  | bool (value : Bool)
  | int (value : Int)
  | float (value : Float)
  | text (value : String)
  | list (items : List Setting)
  /-- A value of any other kind. -/
  | other
deriving Inhabited

namespace Setting

/-- The text of a double. -/
def floatText (x : Float) : String :=
  match Decimal.finiteText? x with
  | some digits => String.ofList digits
  | none => if x.isNaN then "nan" else if x < 0 then "-inf" else "inf"

/-- A setting as a truth value. -/
def toBool? : Setting → Option Bool
  | .bool b => some b
  | .text s =>
    let word := lowercase (strip s)
    if word ∈ ["true", "yes", "1"] then some true
    else if word ∈ ["false", "no", "0"] then some false
    else none
  | _ => none

/-- A setting as a whole number. -/
def toInt? : Setting → Option Int
  | .int n => some n
  | .text s => (Decimal.readInt 10 s.toList).toOption
  | _ => none

/-- A whole number is too large for what it is to be. -/
inductive HugeNumber where
  /-- It is too large for any double. -/
  | hugeNumber
  /-- It has more digits than are written in a text. -/
  | longNumber
deriving DecidableEq, Repr

/-- The wording of the fault. -/
def HugeNumber.message : HugeNumber → String
  | .hugeNumber => "int too large to convert to float"
  | .longNumber =>
    s!"Exceeds the limit ({Decimal.longestInt} digits) for integer string conversion; " ++
      "use sys.set_int_max_str_digits() to increase the limit"

/-- A setting as a number with a fraction. -/
def toFloat? : Setting → Except HugeNumber (Option Float)
  | .int n =>
    match Decimal.ofInt? n with
    | some x => .ok (some x)
    | none => .error .hugeNumber
  | .float x => .ok (some x)
  | .text s => .ok (Decimal.readFloat? s.toList)
  | _ => .ok none

/-- A setting as an item of a list of texts. -/
def itemText? : Setting → Option String
  | .text s => some s
  | .int n => some (toString n)
  | .float x => some (floatText x)
  | .bool b => some (if b then "True" else "False")
  | _ => none

/-- A setting as a list of texts; a text is a list of its own. -/
def toTexts : Setting → List String
  | .text s => [s]
  | .list items => items.filterMap itemText?
  | _ => []

/-- Whether a setting is a whole number with more digits than are written in a text. -/
def isLong : Setting → Bool
  | .int n => Nat.pow 10 Decimal.longestInt ≤ n.natAbs
  | _ => false

/-- The items of a setting that is a list. -/
def items : Setting → List Setting
  | .list items => items
  | _ => []

/-- A setting as a list of texts, if all numbers in it can be written. -/
def toTexts? (s : Setting) : Except HugeNumber (List String) :=
  if s.items.any isLong then .error .longNumber else .ok s.toTexts

end Setting

end RepoSurvey
