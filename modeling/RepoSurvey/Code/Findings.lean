import RepoSurvey.Code.Node
import RepoSurvey.Extraction

/-!
# Names found in a syntax tree

`Node.findings` says what one node contributes by itself: the source of an import or a re-export,
the argument of `require` and `import` calls, the names of declared functions, classes and
interfaces, and the exported names, also those assigned to `module.exports` and `exports`.
`extract` adds up the contributions of all nodes in document order.

Because a construct is recognised by its kind, text that merely looks like an import inside a
string or a comment contributes nothing.
-/

namespace RepoSurvey.Code

/-! ### Kinds -/

/-- Function expressions. -/
def functionValues : List String :=
  ["arrow_function", "function_expression", "function", "generator_function"]

/-- Declarations of functions. -/
def functionDeclarations : List String := ["function_declaration", "generator_function_declaration"]

/-- Declarations of classes. -/
def classDeclarations : List String := ["class_declaration", "abstract_class_declaration"]

/-- Kinds whose own text is a name. -/
def nameKinds : List String := ["identifier", "property_identifier", "type_identifier", "number"]

namespace Node

variable (source : List UInt8)

/-! ### Names -/

/-- The raw text between the quotes of a string node. -/
def stringValue? (n : Node) : Option String :=
  if n.kind == "string" then
    let cs := (n.text source).toList
    if 2 ≤ cs.length then some (String.ofList ((cs.drop 1).dropLast)) else none
  else none

/-- The name that an identifier or a string stands for. -/
def nameText? (n : Node) : Option String :=
  if n.kind ∈ nameKinds then some (n.text source) else n.stringValue? source

/-- The text of the node's `name`. -/
def declaredName? (n : Node) : Option String := (n.child? "name").map (·.text source)

/-- The string in the node's `source`, as an import. -/
def sourceFinding (n : Node) : Finding :=
  (.imports, (n.child? "source").bind (·.stringValue? source))

/-- The name of a declarator whose value is a function expression. -/
def functionVariable? (n : Node) : Option String := do
  let name ← n.child? "name"
  let value ← n.child? "value"
  if name.kind == "identifier" && value.kind ∈ functionValues then some (name.text source)
  else none

/-! ### Paths of members -/

/-- The key of a subscript, if it is a number or a string. -/
def literalKey? (n : Node) : Option String :=
  if n.kind == "number" then some (n.text source) else n.stringValue? source

/-- Whether a name is there and not empty. -/
def nonempty? (s : Option String) : Option String := s.filter (· != "")

/-- The dotted path of a chain of members and literal subscripts that starts at an identifier;
`fuel` bounds the length of the chain. -/
def memberPathWith : (fuel : Nat) → Node → Option String
  | 0, _ => none
  | fuel + 1, n => do
    if n.kind != "member_expression" && n.kind != "subscript_expression" then none
    let target ← n.child? "object"
    let base :=
      if target.kind == "identifier" then some (target.text source)
      else memberPathWith fuel target
    let key :=
      if n.kind == "member_expression" then (n.child? "property").map (·.text source)
      else (n.child? "index").bind (·.literalKey? source)
    return (← nonempty? base) ++ "." ++ (← nonempty? key)

/-- The dotted path of a chain of members and literal subscripts that starts at an identifier. -/
def memberPath? (n : Node) : Option String := memberPathWith source n.size n

/-! ### Exported names of a value -/

/-- The node inside any number of parentheses; `fuel` bounds their number. -/
def unwrapWith : (fuel : Nat) → Node → Node
  | 0, n => n
  | fuel + 1, n =>
    match n.kind == "parenthesized_expression", n.namedChildren with
    | true, inner :: _ => unwrapWith fuel inner
    | _, _ => n

/-- The node inside any number of parentheses. -/
def unwrap (n : Node) : Node := unwrapWith n.size n

/-- The name of one property of an object that is exported as a whole. -/
def propertyName? (n : Node) : Option String :=
  match n.kind with
  | "pair" => (n.child? "key").bind (·.nameText? source)
  | "method_definition" => (n.child? "name").bind (·.nameText? source)
  | "shorthand_property_identifier" => some (n.text source)
  | _ => none

/-- The names under which a value is exported as a whole: its own name, the names of its
properties, or `default`. -/
def exportedNames (value : Option Node) : List String :=
  match value.map unwrap with
  | none => []
  | some n =>
    if n.kind == "identifier" then [n.text source]
    else if n.kind ∈ functionValues ++ functionDeclarations || n.kind == "class" ||
        n.kind ∈ classDeclarations then
      [(nonempty? (n.declaredName? source)).getD "default"]
    else if n.kind == "object" then
      match n.namedChildren.filterMap fun p ↦ nonempty? (p.propertyName? source) with
      | [] => ["default"]
      | names => names
    else ["default"]

/-- The names as exports. -/
def asExports (names : List String) : List Finding := names.map fun name ↦ (.exports, some name)

/-! ### Contributions of a node -/

/-- What a declaration contributes by being exported, and the names that it declares. -/
def declarationFindings (n : Node) : List Finding × List (Option String) :=
  if n.kind ∈ functionDeclarations || n.kind ∈ functionValues then
    ([(.functions, n.declaredName? source)], [n.declaredName? source])
  else if n.kind ∈ classDeclarations || n.kind == "class" then
    ([(.classes, n.declaredName? source)], [n.declaredName? source])
  else if n.kind == "lexical_declaration" || n.kind == "variable_declaration" then
    let declarators := n.namedChildren.filter (·.kind == "variable_declarator")
    (declarators.map fun d ↦ (.functions, d.functionVariable? source),
      declarators.map fun d ↦ (d.child? "name").bind (·.nameText? source))
  else if n.kind == "interface_declaration" then
    ([(.interfaces, n.declaredName? source)], [n.declaredName? source])
  else if n.kind == "type_alias_declaration" || n.kind == "enum_declaration" then
    ([], [n.declaredName? source])
  else ([], [])

/-- The names in the export clauses of an export statement. -/
def clauseNames (n : Node) : List Finding :=
  (n.namedChildren.filter (·.kind == "export_clause")).flatMap fun clause ↦
    (clause.namedChildren.filter (·.kind == "export_specifier")).map fun specifier ↦
      (.exports, ((specifier.child? "alias").or (specifier.child? "name")).bind
        (·.nameText? source))

/-- The `*` or the namespace name that an export statement exports. -/
def starFindings (n : Node) : List Finding :=
  match n.namedChildren.find? (·.kind == "namespace_export") with
  | some namespaceExport =>
    let given := namespaceExport.namedChildren.getLast?.bind (·.nameText? source)
    [(.exports, some ((nonempty? given).getD "*"))]
  | none => if n.hasToken "*" then [(.exports, some "*")] else []

/-- What an export statement contributes. -/
def exportFindings (n : Node) : List Finding :=
  let reexport := if n.hasToken "type" then [] else [n.sourceFinding source]
  if n.hasToken "=" then
    reexport ++ asExports (exportedNames source n.namedChildren.getLast?)
  else
    let declaration := n.child? "declaration"
    reexport ++ n.starFindings source ++
      if n.hasToken "default" then
        (.exports, some "default") ::
          match declaration.or (n.child? "value") with
          | some target => (target.declarationFindings source).1
          | none => []
      else
        (match declaration with
          | some d =>
            let (findings, names) := d.declarationFindings source
            findings ++ names.map fun name ↦ (.exports, name)
          | none => []) ++ n.clauseNames source

/-- What a call contributes: the argument of `require` and of a dynamic `import`. -/
def callFindings (n : Node) : List Finding :=
  match n.child? "function" with
  | some callee =>
    if callee.kind == "import" || (callee.kind == "identifier" && callee.text source == "require")
    then
      let first := (n.child? "arguments").bind (·.namedChildren.head?)
      [(.imports, first.bind (·.stringValue? source))]
    else []
  | none => []

/-- The part of a dotted path up to its first point. -/
def firstSegment (path : List Char) : String := String.ofList (path.takeWhile (· != '.'))

/-- What is left of a string behind a front part. -/
def after? (front s : String) : Option (List Char) :=
  let f := front.toList
  if f.isPrefixOf s.toList then some (s.toList.drop f.length) else none

/-- What an assignment contributes: the names assigned to `module.exports` and `exports`. -/
def assignmentFindings (n : Node) : List Finding :=
  match (n.child? "left").bind (·.memberPath? source) with
  | none => []
  | some path =>
    if path == "module.exports" then asExports (exportedNames source (n.child? "right"))
    else match after? "exports." path with
      | some rest => [(.exports, some (firstSegment rest))]
      | none =>
        match after? "module.exports." path with
        | some rest => [(.exports, some (firstSegment rest))]
        | none => []

/-- What a node contributes by itself. -/
def findings (n : Node) : List Finding :=
  if n.kind == "import_statement" then
    if n.hasToken "type" then [] else [n.sourceFinding source]
  else if n.kind == "import_require_clause" then [n.sourceFinding source]
  else if n.kind == "export_statement" then n.exportFindings source
  else if n.kind == "call_expression" then n.callFindings source
  else if n.kind == "assignment_expression" then n.assignmentFindings source
  else if n.kind ∈ functionDeclarations then [(.functions, n.declaredName? source)]
  else if n.kind == "variable_declarator" then [(.functions, n.functionVariable? source)]
  else if n.kind ∈ classDeclarations then [(.classes, n.declaredName? source)]
  else if n.kind == "interface_declaration" then [(.interfaces, n.declaredName? source)]
  else []

end Node

/-- The names found in a syntax tree, first seen first. -/
def extract (source : List UInt8) (root : Node) : Extraction :=
  Extraction.ofFindings ((Node.stackOrder [root]).flatMap (Node.findings source))

end RepoSurvey.Code
