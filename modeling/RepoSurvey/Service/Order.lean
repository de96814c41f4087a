import RepoSurvey.Config.Options
import RepoSurvey.Json.Reader

/-!
# Orders for a survey

An order is the JSON object by which a client of the service asks for a survey. Everything that is
wrong with an order is told at once, each fault with its place in the body of the request. Members
that no order has do no harm.
-/

namespace RepoSurvey.Service

/-! ### Faults -/

/-- A step from a value to a part of it. -/
inductive Step where
  | member (name : String)
  | item (index : Nat)
deriving DecidableEq, Repr

/-- What is wrong with a part of a body. -/
inductive Problem where
  | missing
  /-- It is no JSON document; the step to it is the position of the fault. -/
  | notJson
  | notAnObject
  | notAText
  | notAList
  | notATruthValue
  /-- It is a text or a number for neither truth value. -/
  | unclearTruthValue
deriving DecidableEq, Repr

/-- The name by which a client knows a problem. -/
def Problem.code : Problem → String
  | .missing => "missing"
  | .notJson => "json_invalid"
  | .notAnObject => "model_attributes_type"
  | .notAText => "string_type"
  | .notAList => "list_type"
  | .notATruthValue => "bool_type"
  | .unclearTruthValue => "bool_parsing"

/-- A problem with the steps that lead to it from the body. -/
structure Fault where
  place : List Step
  problem : Problem
deriving DecidableEq, Repr

/-! ### Values -/

/-- A value as a text. -/
def readText (place : List Step) : Json → Except (List Fault) String
  | .str s => .ok s
  | _ => .error [⟨place, .notAText⟩]

/-- Values as texts; `first` is the index of the first. -/
def readItems (place : List Step) (first : Nat) : List Json → Except (List Fault) (List String)
  | [] => .ok []
  | j :: js =>
    match readText (place ++ [.item first]) j, readItems place (first + 1) js with
    | .ok s, .ok ss => .ok (s :: ss)
    | .ok _, .error later => .error later
    | .error fault, .ok _ => .error fault
    | .error fault, .error later => .error (fault ++ later)

/-- A value as a list of texts, or nothing if it is null. -/
def readTexts? (place : List Step) : Json → Except (List Fault) (Option (List String))
  | .null => .ok none
  | .arr items => (readItems place 0 items).map some
  | _ => .error [⟨place, .notAList⟩]

/-- The texts for a truth value, in lower case. -/
def truthWords : Bool → List String
  | true => ["1", "t", "y", "on", "yes", "true"]
  | false => ["0", "f", "n", "no", "off", "false"]

/-- The truth value of a text; only ASCII letters may be capital. -/
def truthOfText? (s : String) : Option Bool :=
  [true, false].find? fun b ↦ (truthWords b).contains (s.map Char.toLower)

/-- Whether a double is a whole number of 64 bits. -/
def isWholeFloat (x : Float) : Bool :=
  x.floor == x && x.abs ≤ 9223372036854775808.0

/-- A value as a truth value. -/
def readTruth (place : List Step) : Json → Except (List Fault) Bool
  | .bool b => .ok b
  | .str s =>
    match truthOfText? s with
    | some b => .ok b
    | none => .error [⟨place, .unclearTruthValue⟩]
  | .int 0 => .ok false
  | .int 1 => .ok true
  | .int n =>
    .error [⟨place, if n.natAbs ≤ 9223372036854775808 then .unclearTruthValue else .notATruthValue⟩]
  | .float x =>
    if x == 0 then .ok false
    else if x == 1 then .ok true
    else .error [⟨place, if isWholeFloat x then .unclearTruthValue else .notATruthValue⟩]
  | _ => .error [⟨place, .notATruthValue⟩]

/-! ### Orders -/

/-- What a client asks for. -/
structure Order where
  path : String
  /-- Patterns of ignored files, if any are given. -/
  ignore : Option (List String) := none
  includeTests : Bool := false
  includeRelated : Bool := true
deriving DecidableEq, Repr

namespace Order

/-- A member of an order, where one that is not given has a usual value. -/
def memberOr {α : Type} (read : List Step → Json → Except (List Fault) α) (usual : α)
    (order : Json) (name : String) : Except (List Fault) α :=
  match order.get? name with
  | some value => read [.member name] value
  | none => .ok usual

/-- A member that every order has. -/
def member {α : Type} (read : List Step → Json → Except (List Fault) α) (order : Json)
    (name : String) : Except (List Fault) α :=
  match order.get? name with
  | some value => read [.member name] value
  | none => .error [⟨[.member name], .missing⟩]

/-- The faults of a reading. -/
def faultsOf {α : Type} : Except (List Fault) α → List Fault
  | .ok _ => []
  | .error faults => faults

/-- The order that a JSON value is, or all that is wrong with it. -/
def ofJson (j : Json) : Except (List Fault) Order :=
  match j with
  | .obj _ =>
    let path := member readText j "path"
    let ignore := memberOr readTexts? none j "ignore"
    let tests := memberOr readTruth false j "include_tests"
    let related := memberOr readTruth true j "include_cochange"
    match path, ignore, tests, related with
    | .ok path, .ok ignore, .ok includeTests, .ok includeRelated =>
      .ok { path, ignore, includeTests, includeRelated }
    | _, _, _, _ =>
      .error (faultsOf path ++ faultsOf ignore ++ faultsOf tests ++ faultsOf related)
  | _ => .error [⟨[], .notAnObject⟩]

/-- The options of the survey that is asked for. -/
def options (o : Order) : Options :=
  Options.ofRequest
    { ignore := Options.ignorePatterns (o.ignore.getD [])
      includeTests := o.includeTests
      includeRelated := some o.includeRelated }

end Order

end RepoSurvey.Service
