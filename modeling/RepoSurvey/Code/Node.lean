import RepoSurvey.Text.Utf8

/-!
# Syntax trees of source files

A `Node` is a node of a concrete syntax tree: it has a kind, the byte range that it covers, the
field under which its parent holds it, and its children from left to right. A node is *named* if it
stands for a construct of the grammar and *anonymous* if it is a mere token. The text of a node is
read from the bytes of the source.

Two orders of visit are given: `preorder` by recursion and `stackOrder` with an explicit stack,
which needs no call depth on deeply nested sources.
-/

namespace RepoSurvey.Code

/-- A node of a concrete syntax tree. -/
inductive Node where
  | mk (kind : String) (named : Bool) (start stop : Nat) (field : Option String)
      (children : List Node)
deriving Inhabited

namespace Node

/-- The kind of construct, or the token itself for an anonymous node. -/
def kind : Node → String
  | .mk kind _ _ _ _ _ => kind

/-- Whether the node stands for a construct and not for a mere token. -/
def named : Node → Bool
  | .mk _ named _ _ _ _ => named

/-- The offset of the node's first byte. -/
def start : Node → Nat
  | .mk _ _ start _ _ _ => start

/-- The offset behind the node's last byte. -/
def stop : Node → Nat
  | .mk _ _ _ stop _ _ => stop

/-- The field under which the parent holds the node. -/
def field : Node → Option String
  | .mk _ _ _ _ field _ => field

/-- The children, from left to right. -/
def children : Node → List Node
  | .mk _ _ _ _ _ children => children

/-- The same node under another field of its parent. -/
def withField (name : String) : Node → Node
  | .mk kind named start stop _ children => .mk kind named start stop (some name) children

/-- The children that stand for constructs. -/
def namedChildren (n : Node) : List Node := n.children.filter named

/-- The first child held under a field. -/
def child? (n : Node) (name : String) : Option Node :=
  n.children.find? fun c ↦ c.field == some name

/-- Whether a token stands among the children. -/
def hasToken (n : Node) (token : String) : Bool :=
  n.children.any fun c ↦ !c.named && c.kind == token

/-! ### Orders of visit -/

mutual

/-- The number of nodes of a tree. -/
def size : Node → Nat
  | .mk _ _ _ _ _ children => 1 + sizes children

/-- The number of nodes of several trees. -/
def sizes : List Node → Nat
  | [] => 0
  | n :: ns => size n + sizes ns

end

mutual

/-- A node, then its descendants, from left to right. -/
def preorder : Node → List Node
  | .mk kind named start stop field children =>
    .mk kind named start stop field children :: preorders children

/-- The nodes of several trees, one tree after the other. -/
def preorders : List Node → List Node
  | [] => []
  | n :: ns => preorder n ++ preorders ns

end

theorem sizes_append (xs ys : List Node) : sizes (xs ++ ys) = sizes xs + sizes ys := by
  induction xs with
  | nil => simp [sizes]
  | cons x xs ih => simp [sizes, ih, Nat.add_assoc]

theorem size_eq (n : Node) : n.size = 1 + sizes n.children := by
  cases n; simp [size, children]

/-- The nodes in the order in which a stack of trees gives them up: the top node is visited and its
children take its place. -/
def stackOrder : (stack : List Node) → List Node
  | [] => []
  | n :: stack => n :: stackOrder (n.children ++ stack)
termination_by stack => sizes stack
decreasing_by simp [sizes, sizes_append, size_eq]

end Node

/-! ### Text of a node -/

/-- The text that a node covers in the bytes of its source. -/
def Node.text (source : List UInt8) (n : Node) : String :=
  String.ofList (Text.decodeLossy ((source.drop n.start).take (n.stop - n.start)))

end RepoSurvey.Code
