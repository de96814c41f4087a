import RepoSurvey.Yaml.Reader
import RepoSurvey.Yaml.Scalars

/-!
# Reading documents

`Yaml.read` reads the document of a text and looks at every node of it once: scalars must have
values, tags must be known, and keys must not be collections. Nodes are looked at level by level,
since a collection may be contained in itself. What a document holds is then asked for with
`field?`, `items?` and `scalar?`.
-/

namespace RepoSurvey.Yaml

namespace Document

/-! ### The content of nodes -/

/-- The text of a scalar, or of the key `=` of a mapping that stands for one; `fuel` counts
mappings inside each other. -/
def text? (d : Document) : (fuel : Nat) → Node → Option String
  | 0, _ => none
  | fuel + 1, n =>
    match d.node n with
    | .scalar _ text => some text
    | .map _ pairs =>
      match pairs.find? fun p ↦ d.tagOf p.1 == .value with
      | some (_, value) => text? d fuel value
      | none => none
    | _ => none

/-- Whether pairs of nodes are written at a place. -/
def isMapping (d : Document) (n : Node) : Bool :=
  match d.node n with
  | .map _ _ => true
  | _ => false

/-- The mappings that are merged by the value of a merge key. -/
def merged (d : Document) (value : Node) : Except Problem (List Node) :=
  match d.node value with
  | .map _ _ => .ok [value]
  | .list _ items =>
    if items.all d.isMapping then .ok items.reverse
    else .error .mappingExpected
  | .scalar _ _ | .named _ => .error .mappingExpected

/-- The pairs of a mapping, those of merged mappings in front. A mapping that is merged into itself,
through any of the anchors in `around`, adds only what is written in it; `fuel` counts mappings
inside each other. -/
def pairsWithin (d : Document) :
    (fuel : Nat) → (around : List String) → Node → Except Problem (List (Node × Node))
  | 0, _, _ => .ok []
  | fuel + 1, around, n =>
    match d.node n with
    | .map _ own => do
      let (merges, rest) := own.partition fun p ↦ d.tagOf p.1 == .merge
      let (again, around) := match n with
        | .named anchor => (around.contains anchor, anchor :: around)
        | _ => (false, around)
      if again then return rest
      let sources ← merges.mapM fun p ↦ d.merged p.2
      let front ← sources.flatten.mapM (pairsWithin d fuel around)
      return front.flatten ++ rest
    | _ => .error .mappingExpected

/-- The pairs of a mapping, those of merged mappings in front. -/
def pairs (d : Document) (n : Node) : Except Problem (List (Node × Node)) :=
  d.pairsWithin (d.size + 1) [] n

/-! ### Looking at all nodes -/

/-- What has been looked at: the anchors seen, and the collections still to be opened, latest
first. -/
structure Tour where
  seen : List String := []
  next : List Node := []

/-- Looks at a node that has no anchor. -/
def visitOwn (d : Document) (t : Tour) (n : Node) : Except Fault Tour :=
  let tag := d.tagOf n
  if tag.isCollection then .ok { t with next := n :: t.next }
  else match tag with
    | .merge | .value | .other _ => .error (.malformed .unknownTag)
    | _ =>
      match d.text? (d.size + 1) n with
      | none => .error (.malformed .scalarExpected)
      | some text =>
        if tag = .moment ∧ d.isMapping n then .error (.scalar (.moment .mapping))
        else (scalarOf tag text).map fun _ ↦ t

/-- Looks at a node, unless it has an anchor and has been looked at. -/
def visit (d : Document) (t : Tour) (n : Node) : Except Fault Tour :=
  match n with
  | .named anchor =>
    if t.seen.contains anchor then .ok t
    else d.visitOwn { t with seen := anchor :: t.seen } (d.node n)
  | n => d.visitOwn t n

/-- Looks at a pair of a mapping. -/
def visitPair (d : Document) (t : Tour) (p : Node × Node) : Except Fault Tour := do
  let key := p.1
  let t ← if d.tagOf key == .value then .ok t else d.visit t key
  if (d.tagOf key).isCollection then .error (.malformed .collectionAsKey)
  d.visit t p.2

/-- Looks at the only pair of an item of a list of pairs. -/
def visitSingle (d : Document) (t : Tour) (n : Node) : Except Fault Tour :=
  match d.node n with
  | .map _ [(key, value)] => do d.visit (← d.visit t key) value
  | _ => .error (.malformed .mappingExpected)

/-- Looks at what a collection contains. -/
def openNode (d : Document) (t : Tour) (n : Node) : Except Fault Tour :=
  match d.tagOf n, d.node n with
  | .list, .list _ items => items.foldlM d.visit t
  | .list, _ => .error (.malformed .listExpected)
  | .map, n | .set, n =>
    match d.pairs n with
    | .ok pairs => pairs.foldlM d.visitPair t
    | .error problem => .error (.malformed problem)
  | _, .list _ items => items.foldlM d.visitSingle t
  | _, _ => .error (.malformed .listExpected)

/-- Looks at collections level by level; `fuel` counts levels. -/
def tour (d : Document) : (fuel : Nat) → (seen : List String) → List Node → Except Fault Unit
  | 0, _, _ => .ok ()
  | fuel + 1, seen, level =>
    if level.isEmpty then .ok ()
    else do
      let t ← level.foldlM d.openNode { seen }
      tour d fuel t.seen t.next.reverse

/-- Looks at every node. -/
def check (d : Document) : Except Fault Unit := do
  let t ← d.visit {} d.root
  d.tour (d.size + 1) t.seen t.next.reverse

/-! ### Asking for content -/

/-- Whether a node is a mapping from keys to values. -/
def isMap (d : Document) (n : Node) : Bool :=
  match d.node n with
  | .map .map _ => true
  | _ => false

/-- Whether a node is a key of a name. -/
def isKey (d : Document) (name : String) (n : Node) : Bool :=
  match d.node n with
  | .scalar .str text => text == name
  | _ => false

/-- The value of a key of a mapping; of several the last. -/
def field? (d : Document) (n : Node) (name : String) : Option Node :=
  if d.isMap n then
    match d.pairs n with
    | .ok pairs => (pairs.reverse.find? fun p ↦ d.isKey name p.1).map Prod.snd
    | .error _ => none
  else none

/-- The items of a list. -/
def items? (d : Document) (n : Node) : Option (List Node) :=
  match d.node n with
  | .list .list items => some items
  | _ => none

/-- The value of a scalar. -/
def scalar? (d : Document) (n : Node) : Option Scalar :=
  let tag := d.tagOf n
  if tag.isCollection then none
  else (d.text? (d.size + 1) n).bind fun text ↦ (scalarOf tag text).toOption

end Document

/-- Reads the document of a text, if there is one. -/
def read (text : String) : Except Fault (Option Document) := do
  let ts ← tokens text.toList
  match (Grammar.document { tokens := ts }).mapError Fault.malformed with
  | .error e => .error e
  | .ok none => return none
  | .ok (some d) =>
    d.check
    return some d

end RepoSurvey.Yaml
