import RepoSurvey.Script.Pattern

/-!
# Functions and classes

Parameters, the parts that declarations and expressions of functions share, and the members of a
class. A method without a body is accepted only where types are allowed.
-/

namespace RepoSurvey.Script

variable (parse : Grammar)

/-! ### Parameters -/

/-- The words in front of a parameter that make it a field. -/
def accessWords : List String := ["public", "private", "protected", "readonly", "override"]

/-- Reads words in front of what they modify. -/
def modifiers (words : List String) : Reader Unit := many do
  if (← seesAny words) && !(← behind endsName) then
    anyToken
    return true
  else return false

/-- Reads a parameter of a function where types are allowed. -/
def typedFunctionParameter : Reader Unit := build do
  decorators parse
  modifiers accessWords
  if ← sees "..." then node "rest_pattern" do
    anyToken
    binding parse
  else if ← sees "this" then leaf "this" 4
  else field "pattern" (binding parse)
  let optional ← token? "?"
  annotation? parse
  if ← token? "=" then field "value" (parse .expression)
  return if optional then "optional_parameter" else "required_parameter"

/-- Reads a parameter of a function. -/
def parameter : Reader Unit := do
  if (← get).dialect.types then typedFunctionParameter parse
  else if ← sees "..." then restPattern parse
  else
    decorators parse
    patternWithDefault parse

/-- Reads the parameters of a function. -/
def parameters : Reader Unit := field "parameters" do
  node "formal_parameters" do
    token "("
    listUntil ")" (parameter parse)

/-- Reads what stands between the name of a function and its body. -/
def heading : Reader Unit := do
  typeParameters? parse
  parameters parse
  annotation? parse

/-- Reads the body of a function. -/
def body : Reader Unit := field "body" (parse .block)

/-! ### Functions -/

/-- Reads `async` and `function` and the star of a generator; tells whether the star was there. -/
def functionWords : Reader Bool := do
  let _ ← token? "async"
  token "function"
  token? "*"

/-- Whether a function written with its keyword is in front. -/
def seesFunction : Reader Bool := do
  if ← sees "function" then return true
  if ← sees "async" then behind do return (← sees "function") && !(← get).newline
  else return false

/-- Reads a function as an expression. -/
def functionExpression : Reader Unit := build do
  let generator ← functionWords
  if ← seesName then field "name" (name "identifier")
  heading parse
  body parse
  return if generator then "generator_function" else "function_expression"

/-- Reads a function as a declaration; where types are allowed the body may be missing. -/
def functionDeclaration : Reader Unit := build do
  let generator ← functionWords
  field "name" (name "identifier")
  heading parse
  if ← sees openBrace then
    body parse
    return if generator then "generator_function_declaration" else "function_declaration"
  check (← get).dialect.types
  semicolon
  return "function_signature"

/-- Reads the arrow of a function and what it yields. -/
def arrowBody : Reader Unit := do
  check (!(← get).newline)
  token "=>"
  field "body" do
    if ← sees openBrace then parse .block else parse .expression

/-- Reads an arrow function. -/
def arrowFunction : Reader Unit := node "arrow_function" do
  let async := (← sees "async") && !(← behind (sees "=>"))
  if async then
    anyToken
    check (!(← get).newline)
  if ← seesWord then field "parameter" (name "identifier")
  else heading parse
  arrowBody parse

/-! ### Classes -/

/-- The words in front of a member of a class. -/
def memberWords : Reader (List String) := do
  let plain := ["static", "async", "get", "set"]
  if (← get).dialect.types then
    return plain ++ ["public", "private", "protected", "readonly", "override", "abstract",
      "declare", "accessor"]
  else return plain

/-- Reads a method behind its name, and tells its kind. -/
def methodRest : Reader String := do
  heading parse
  if ← sees openBrace then
    body parse
    return "method_definition"
  check (← get).dialect.types
  semicolon
  return "method_signature"

/-- Reads one member of a class. -/
def classMember : Reader Unit := build do
  decorators parse
  if (← sees "static") && (← behind (sees openBrace)) then
    anyToken
    body parse
    return "class_static_block"
  modifiers (← memberWords)
  let _ ← token? "*"
  if (← get).dialect.types && (← seesIndexKey) then
    indexKey parse
    annotation? parse
    semicolon
    return "index_signature"
  field "name" (memberName parse)
  let typed := (← get).dialect.types
  if typed && (← seesAny ["?", "!"]) then anyToken
  if (← sees "(") || (typed && (← seesAngle)) then methodRest parse
  else
    annotation? parse
    if ← token? "=" then field "value" (parse .expression)
    semicolon
    return "field_definition"

/-- Reads the members of a class. -/
def classBody : Reader Unit := field "body" do
  node "class_body" do
    token openBrace
    many do
      if ← sees closeBrace then return false
      if ← token? ";" then return true
      classMember parse
      return true
    token closeBrace

/-- Reads the clauses between the name of a class and its body. -/
def heritage : Reader Unit := do
  let types := (← get).dialect.types
  if (← sees "extends") || (types && (← sees "implements")) then
    node "class_heritage" do
      if ← token? "extends" then
        parse .operand
        if types && (← seesAngle) then typeArguments parse
      if types && (← sees "implements") then
        anyToken
        separated (parse .type)

/-- Reads a class, named or not as `named` allows, under a kind. -/
def readClass (kind : String) (named : Bool) : Reader Unit := node kind do
  decorators parse
  let _ ← token? "abstract"
  token "class"
  let types := (← get).dialect.types
  let heads := (← sees "extends") || (← sees "implements") || (← sees openBrace) ||
    (types && (← seesAngle))
  if named || !heads then
    field "name" (name (if types then "type_identifier" else "identifier"))
  typeParameters? parse
  heritage parse
  classBody parse

end RepoSurvey.Script
