import RepoSurvey.Yaml.Fault

/-!
# Nodes

A document is a tree of nodes, each with a tag that says what it is. A node with an anchor is kept
apart, under its anchor, and every place where it stands refers to it: a node may thus contain
itself.
-/

namespace RepoSurvey.Yaml

/-- What a node is. -/
inductive Tag where
  | null
  | bool
  | int
  | float
  | binary
  | moment
  | str
  | list
  | map
  | set
  | pairs
  | orderedMap
  /-- The key whose value is merged into the mapping around it. -/
  | merge
  /-- The key whose value stands for the mapping around it. -/
  | value
  | other (name : String)
deriving DecidableEq, Repr

/-- What the tags of common types begin with. -/
def commonFront : String := "tag:yaml.org,2002:"

/-- The tags of common types. -/
def commonTags : List (String × Tag) :=
  [("null", .null), ("bool", .bool), ("int", .int), ("float", .float), ("binary", .binary),
    ("timestamp", .moment), ("str", .str), ("seq", .list), ("map", .map), ("set", .set),
    ("pairs", .pairs), ("omap", .orderedMap), ("merge", .merge), ("value", .value)]

/-- The tag of a name. -/
def Tag.ofName (name : String) : Tag :=
  match (Text.dropFront? commonFront.toList name.toList).bind fun rest ↦
      commonTags.lookup (String.ofList rest) with
  | some tag => tag
  | none => .other name

/-- Whether a tag is that of a collection. -/
def Tag.isCollection : Tag → Bool
  | .list | .map | .set | .pairs | .orderedMap => true
  | _ => false

/-- A node of a document. -/
inductive Node where
  | scalar (tag : Tag) (text : String)
  | list (tag : Tag) (items : List Node)
  | map (tag : Tag) (pairs : List (Node × Node))
  /-- The node with an anchor. -/
  | named (anchor : String)
deriving Inhabited

/-- The node of nothing. -/
def Node.empty : Node := .scalar .null ""

/-- A document. -/
structure Document where
  root : Node
  /-- The nodes with anchors; none of them is only a reference. -/
  anchors : List (String × Node) := []
  /-- The number of its tokens; there are not more nodes inside each other. -/
  size : Nat := 0

namespace Document

/-- The node that stands at a place. -/
def node (d : Document) : Node → Node
  | .named anchor => (d.anchors.lookup anchor).getD .empty
  | n => n

/-- The tag of the node at a place. -/
def tagOf (d : Document) (n : Node) : Tag :=
  match d.node n with
  | .scalar tag _ | .list tag _ | .map tag _ => tag
  | .named _ => .null

end Document

end RepoSurvey.Yaml
