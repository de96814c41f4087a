import RepoSurvey.Yaml.Lexer
import RepoSurvey.Yaml.Implicit

/-!
# Documents of tokens

The grammar of documents over tokens. In a block, what is missing is an empty node; between brackets
as well, except that commas must stand between the nodes. A text has at most one document.

The recursions count down `fuel`; three steps for each token are always enough.
-/

namespace RepoSurvey.Yaml

/-- How far the tokens have been read. -/
structure Grammar where
  tokens : List Token
  /-- What the handles of tags stand for. -/
  handles : List (String × String) := []
  /-- The anchors seen so far. -/
  begun : List String := []
  /-- The nodes of anchors. -/
  anchors : List (String × Node) := []

namespace Grammar

/-- The next token. -/
def peek (g : Grammar) : Option Token := g.tokens.head?

/-- Behind the next token. -/
def drop (g : Grammar) : Grammar := { g with tokens := g.tokens.tail }

/-- Whether the next token is one of some. -/
def sees (g : Grammar) (ts : List Token) : Bool := (g.peek.map ts.contains).getD false

/-! ### Directives -/

/-- The handles that need no directive. -/
def usualHandles : List (String × String) := [("!", "!"), ("!!", commonFront)]

/-- Reads the directives in front of a document. -/
def directives : (fuel : Nat) → (version : Bool) → (handles : List (String × String)) → Grammar →
    Except Problem Grammar
  | 0, _, _, g => .ok g
  | fuel + 1, version, handles, g =>
    match g.peek with
    | some (.versionDirective major) =>
      if version then .error .repeatedDirective
      else if major != 1 then .error .unknownVersion
      else directives fuel true handles g.drop
    | some (.tagDirective handle front) =>
      if (handles.lookup handle).isSome then .error .repeatedHandle
      else directives fuel version (handles ++ [(handle, front)]) g.drop
    | some .otherDirective => directives fuel version handles g.drop
    | _ => .ok { g with handles := handles ++ usualHandles }

/-! ### Properties of nodes -/

/-- The name of a tag as it is written. -/
def tagName (g : Grammar) : WrittenTag → Except Problem String
  | .whole tag => .ok tag
  | .short handle rest =>
    match g.handles.lookup handle with
    | some front => .ok (front ++ rest)
    | none => .error .unknownHandle

/-- The anchor and the tag, in either order, in front of a node. -/
def writtenProperties (g : Grammar) : Option String × Option WrittenTag × Grammar :=
  match g.tokens with
  | .anchor a :: .tag t :: rest => (some a, some t, { g with tokens := rest })
  | .tag t :: .anchor a :: rest => (some a, some t, { g with tokens := rest })
  | .anchor a :: rest => (some a, none, { g with tokens := rest })
  | .tag t :: rest => (none, some t, { g with tokens := rest })
  | _ => (none, none, g)

/-- The anchor and the name of the tag in front of a node. The tag `!` names none, but lets the text
of a scalar decide as if it were plain. -/
def properties (g : Grammar) : Except Problem ((Option String × Option String) × Grammar) := do
  let (anchor, written, g) := g.writtenProperties
  let tag ← match written with
    | some t => (g.tagName t).map some
    | none => pure none
  match anchor with
  | some a =>
    if g.begun.contains a then .error .repeatedAnchor
    else return ((anchor, tag), { g with begun := a :: g.begun })
  | none => return ((none, tag), g)

/-- The tag of a collection. -/
def collectionTag (usual : Tag) (tag : Option String) : Tag :=
  match tag.filter (· != "!") with
  | some name => Tag.ofName name
  | none => usual

/-- The tag of a scalar. -/
def scalarTag (tag : Option String) (text : String) (plain : Bool) : Tag :=
  match tag with
  | none => if plain then Tag.ofText text else .str
  | some name => if name = "!" then Tag.ofText text else Tag.ofName name

/-- Keeps a node under its anchor, if it has one. -/
def keep (anchor : Option String) : Node × Grammar → Node × Grammar
  | (n, g) =>
    match anchor with
    | some a => (.named a, { g with anchors := g.anchors ++ [(a, n)] })
    | none => (n, g)

/-! ### Nodes -/

/-- Where a node stands. -/
inductive Place where
  /-- Between brackets. -/
  | flow
  /-- In a block. -/
  | block
  /-- In a mapping of a block, where the items of a list need no indentation. -/
  | mapping
deriving DecidableEq, Repr

/-- The tokens that cannot begin a value in a block mapping. -/
def afterKey : List Token := [.key, .value, .blockEnd]

mutual

/-- Reads a node. -/
def node (place : Place) : (fuel : Nat) → Grammar → Except Problem (Node × Grammar)
  | 0, _ => .error .nodeExpected
  | fuel + 1, g =>
    match g.peek with
    | some (.reference name) =>
      if g.begun.contains name then .ok (.named name, g.drop) else .error .unknownAlias
    | _ => do
      let ((anchor, tag), g) ← g.properties
      match g.peek with
      | some .blockItem =>
        if place == .mapping then
          let (items, g) ← looseItems fuel g
          return keep anchor (.list (collectionTag .list tag) items, g)
        else emptyNode anchor tag g
      | some (.scalar text plain) =>
        return keep anchor (.scalar (scalarTag tag text plain) text, g.drop)
      | some .flowListStart =>
        let (items, g) ← flowItems true fuel g.drop
        return keep anchor (.list (collectionTag .list tag) items, g)
      | some .flowMapStart =>
        let (pairs, g) ← flowPairs true fuel g.drop
        return keep anchor (.map (collectionTag .map tag) pairs, g)
      | some .blockListStart =>
        if place == .flow then emptyNode anchor tag g
        else
          let (items, g) ← blockItems fuel g.drop
          return keep anchor (.list (collectionTag .list tag) items, g)
      | some .blockMapStart =>
        if place == .flow then emptyNode anchor tag g
        else
          let (pairs, g) ← blockPairs fuel g.drop
          return keep anchor (.map (collectionTag .map tag) pairs, g)
      | _ => emptyNode anchor tag g

/-- An empty node, where an anchor or a tag says that there is one. -/
def emptyNode (anchor tag : Option String) (g : Grammar) : Except Problem (Node × Grammar) :=
  if anchor.isNone && tag.isNone then .error .nodeExpected
  else .ok (keep anchor (.scalar (scalarTag tag "" true) "", g))

/-- Reads a node, or an empty one if one of some tokens stands here. -/
def nodeUnless (ends : List Token) (place : Place) :
    (fuel : Nat) → Grammar → Except Problem (Node × Grammar)
  | 0, _ => .error .nodeExpected
  | fuel + 1, g => if g.sees ends then .ok (.empty, g) else node place fuel g

/-- Reads the items of a list in a block, up to the end of the block. -/
def blockItems : (fuel : Nat) → Grammar → Except Problem (List Node × Grammar)
  | 0, _ => .error .blockEndExpected
  | fuel + 1, g =>
    match g.peek with
    | some .blockItem => do
      let (item, g) ← nodeUnless [.blockItem, .blockEnd] .block fuel g.drop
      let (items, g) ← blockItems fuel g
      return (item :: items, g)
    | some .blockEnd => .ok ([], g.drop)
    | _ => .error .blockEndExpected

/-- Reads the items of a list that has no block of its own. -/
def looseItems : (fuel : Nat) → Grammar → Except Problem (List Node × Grammar)
  | 0, _ => .error .blockEndExpected
  | fuel + 1, g =>
    match g.peek with
    | some .blockItem => do
      let (item, g) ← nodeUnless [.blockItem, .key, .value, .blockEnd] .block fuel g.drop
      let (items, g) ← looseItems fuel g
      return (item :: items, g)
    | _ => .ok ([], g)

/-- Reads the value behind a key, which may be missing; `ends` are tokens that cannot begin it. -/
def valueAfter (ends : List Token) (place : Place) :
    (fuel : Nat) → Grammar → Except Problem (Node × Grammar)
  | 0, _ => .error .nodeExpected
  | fuel + 1, g =>
    if g.sees [.value] then nodeUnless ends place fuel g.drop else .ok (.empty, g)

/-- Reads the pairs of a mapping in a block, up to the end of the block. -/
def blockPairs : (fuel : Nat) → Grammar → Except Problem (List (Node × Node) × Grammar)
  | 0, _ => .error .blockEndExpected
  | fuel + 1, g =>
    match g.peek with
    | some .key => do
      let (key, g) ← nodeUnless afterKey .mapping fuel g.drop
      let (value, g) ← valueAfter afterKey .mapping fuel g
      let (pairs, g) ← blockPairs fuel g
      return ((key, value) :: pairs, g)
    | some .blockEnd => .ok ([], g.drop)
    | _ => .error .blockEndExpected

/-- Reads the items of a list between brackets; a pair among them is a mapping of its own. -/
def flowItems (first : Bool) : (fuel : Nat) → Grammar → Except Problem (List Node × Grammar)
  | 0, _ => .error .separatorExpected
  | fuel + 1, g =>
    if g.sees [.flowListEnd] then .ok ([], g.drop)
    else if !first && !g.sees [.flowSeparator] then .error .separatorExpected
    else do
      let g := if first then g else g.drop
      if g.sees [.key] then
        let (key, g) ← nodeUnless [.value, .flowSeparator, .flowListEnd] .flow fuel g.drop
        let (value, g) ← valueAfter [.flowSeparator, .flowListEnd] .flow fuel g
        let (items, g) ← flowItems false fuel g
        return (.map .map [(key, value)] :: items, g)
      else if g.sees [.flowListEnd] then return ([], g.drop)
      else
        let (item, g) ← node .flow fuel g
        let (items, g) ← flowItems false fuel g
        return (item :: items, g)

/-- Reads the pairs of a mapping between brackets; a value may be missing. -/
def flowPairs (first : Bool) :
    (fuel : Nat) → Grammar → Except Problem (List (Node × Node) × Grammar)
  | 0, _ => .error .separatorExpected
  | fuel + 1, g =>
    if g.sees [.flowMapEnd] then .ok ([], g.drop)
    else if !first && !g.sees [.flowSeparator] then .error .separatorExpected
    else do
      let g := if first then g else g.drop
      if g.sees [.key] then
        let (key, g) ← nodeUnless [.value, .flowSeparator, .flowMapEnd] .flow fuel g.drop
        let (value, g) ← valueAfter [.flowSeparator, .flowMapEnd] .flow fuel g
        let (pairs, g) ← flowPairs false fuel g
        return ((key, value) :: pairs, g)
      else if g.sees [.flowMapEnd] then return ([], g.drop)
      else
        let (key, g) ← node .flow fuel g
        let (pairs, g) ← flowPairs false fuel g
        return ((key, .empty) :: pairs, g)

end

/-! ### Documents -/

/-- Whether the next token is a directive. -/
def seesDirective (g : Grammar) : Bool :=
  match g.peek with
  | some (.versionDirective _) | some (.tagDirective _ _) | some .otherDirective => true
  | _ => false

/-- Behind the marks of documents' ends. -/
def dropEnds (g : Grammar) : Grammar :=
  { g with tokens := g.tokens.dropWhile (· == .documentEnd) }

/-- Reads the root of a document behind its mark. -/
def content (fuel : Nat) (g : Grammar) : Except Problem (Node × Grammar) :=
  if g.tokens.isEmpty || g.seesDirective || g.sees [.documentStart, .documentEnd] then
    .ok (.empty, g)
  else node .block fuel g

/-- Reads the mark of a document, and the directives in front of it. -/
def marked (fuel : Nat) (g : Grammar) : Except Problem Grammar := do
  let g ← g.directives fuel false []
  if g.sees [.documentStart] then return g.drop else .error .documentExpected

/-- Reads the document of a text, if there is one. -/
def document (g : Grammar) : Except Problem (Option Document) := do
  let size := g.tokens.length
  let fuel := 3 * (size + 1)
  let implicit := !(g.tokens.isEmpty || g.seesDirective || g.sees [.documentStart])
  let g := if implicit then { g with handles := usualHandles } else g.dropEnds
  if g.tokens.isEmpty then return none
  let g ← if implicit then pure g else marked fuel g
  let (root, g) ← if implicit then node .block fuel g else content fuel g
  let g := g.dropEnds
  if g.tokens.isEmpty then return some { root, anchors := g.anchors, size }
  let _ ← marked fuel g
  .error .severalDocuments

end Grammar

end RepoSurvey.Yaml
