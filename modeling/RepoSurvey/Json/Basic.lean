/-!
# JSON values

A JSON value keeps the order of an object's members and the difference between whole numbers and
fractions, because both show when the value is written again. `Fault` names what can be wrong with
a text that should be a JSON document.
-/

namespace RepoSurvey

/-- A JSON value; an object is the list of its members, each name once, in order. -/
inductive Json where
  | null
  | bool (value : Bool)
  | int (value : Int)
  | float (value : Float)
  | str (value : String)
  | arr (items : List Json)
  | obj (members : List (String × Json))
deriving Inhabited

namespace Json

/-- Sets the member `name`, in its old place if there is one and at the end otherwise. -/
def setMember (name : String) (value : Json) : List (String × Json) → List (String × Json)
  | [] => [(name, value)]
  | (n, v) :: members =>
    if n = name then (n, value) :: members else (n, v) :: setMember name value members

/-- The value of the member `name` of an object. -/
def get? (name : String) : Json → Option Json
  | .obj members => members.lookup name
  | _ => none

/-- What keeps a text from being a JSON document. -/
inductive Problem where
  | valueExpected
  | nameExpected
  | colonExpected
  | commaExpected
  | unterminatedString
  | controlCharacter
  | badEscape
  | badCodeUnit
  | extraData
  | byteOrderMark
  | hugeInteger
deriving DecidableEq, Repr

/-- A problem and the number of characters in front of it. -/
structure Fault where
  problem : Problem
  position : Nat
deriving DecidableEq, Repr

end Json

end RepoSurvey
