import RepoSurvey.Log
import RepoSurvey.Service.Order
import RepoSurvey.Survey.Failure
import RepoSurvey.Survey.Result

/-!
# Replies of the service

The service answers requests: whether it is well, and surveys of repositories. `answer` says what it
replies; how a survey is made is left to its argument.
-/

namespace RepoSurvey.Service

/-- A request. -/
structure Request where
  method : String
  path : String
  /-- The text of the body. -/
  body : List Char := []

/-- What the service replies; `ε` are the faults of surveys. -/
inductive Reply (ε : Type) where
  | json (status : Nat) (body : Json)
  /-- The client should ask again under another path. -/
  | redirect (path : String)
  /-- The body is not in order. -/
  | invalid (faults : List Fault)
  /-- A fault that the service does not handle. -/
  | unhandled (fault : ε)

namespace Reply

variable {ε : Type}

/-- A reply that only tells what is wrong. -/
def detail (status : Nat) (text : String) : Reply ε := .json status (.obj [("detail", .str text)])

/-- The status of a reply. -/
def status : Reply ε → Nat
  | .json status _ => status
  | .redirect _ => 307
  | .invalid _ => 422
  | .unhandled _ => 500

end Reply

/-! ### Routes -/

/-- What can be asked. -/
inductive Route where
  | health
  | analyze
deriving DecidableEq, Repr

namespace Route

/-- All routes. -/
def all : List Route := [.health, .analyze]

/-- The path of a route. -/
def path : Route → String
  | .health => "/health"
  | .analyze => "/analyze"

/-- The method of a route. -/
def method : Route → String
  | .health => "GET"
  | .analyze => "POST"

/-- The route of a path. -/
def ofPath? (path : String) : Option Route := all.find? fun r ↦ r.path == path

end Route

/-- The path without the slashes at its end. -/
def dropSlashes (path : String) : String :=
  String.ofList (path.toList.reverse.dropWhile (· == '/')).reverse

/-! ### Bodies -/

/-- What comes of a body. -/
inductive Body where
  | order (o : Order)
  | invalid (faults : List Fault)
  /-- It cannot be read at all. -/
  | unreadable

/-- Reads a body, which may begin with a byte order mark. -/
def Body.read (cs : List Char) : Body :=
  if cs.isEmpty then .invalid [⟨[], .missing⟩]
  else match Json.parse (if cs.head? == some (Char.ofNat 0xFEFF) then cs.tail else cs) with
    | .ok j =>
      match Order.ofJson j with
      | .ok o => .order o
      | .error faults => .invalid faults
    | .error fault =>
      if fault.problem = .hugeInteger then .unreadable
      else .invalid [⟨[.item fault.position], .notJson⟩]

/-! ### Answers -/

section

variable {ε : Type} [Failure ε] (survey : (path : String) → Options → Except ε Survey)

/-- The reply to a request for a survey. -/
def replyTo : Except ε Survey → Reply ε
  | .ok s => .json 200 s.toJson
  | .error e =>
    match Failure.kind e with
    | .missing => .detail 404 (Failure.message e)
    | .notADirectory | .refused => .detail 400 (Failure.message e)
    | .unforeseen => .unhandled e

/-- The reply to a request that a route takes. -/
def Route.answer (body : List Char) : Route → Reply ε
  | .health => .json 200 (.obj [("status", .str "ok")])
  | .analyze =>
    match Body.read body with
    | .order o => replyTo (survey o.path o.options)
    | .invalid faults => .invalid faults
    | .unreadable => .detail 400 "There was an error parsing the body"

/-- The reply to a request. -/
def answer (r : Request) : Reply ε :=
  match Route.ofPath? r.path with
  | some route =>
    if r.method = route.method then route.answer survey r.body
    else .detail 405 "Method Not Allowed"
  | none =>
    let shorter := dropSlashes r.path
    if (Route.ofPath? shorter).isSome then .redirect shorter else .detail 404 "Not Found"

end

end RepoSurvey.Service
