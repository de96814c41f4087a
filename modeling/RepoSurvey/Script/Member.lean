import RepoSurvey.Script.Type

/-!
# Members and calls

What may follow an expression to reach into its value: a member, a subscript, the arguments of a
call. Each rule wraps the expression read last.
-/

namespace RepoSurvey.Script

variable (parse : Grammar)

/-- Reads an argument, an item of an array or anything else that may be spread. -/
def spreadable : Reader Unit := do
  if ← sees "..." then node "spread_element" do
    anyToken
    parse .expression
  else parse .expression

/-- Reads the arguments of a call. -/
def arguments : Reader Unit := node "arguments" do
  token "("
  listUntil ")" (spreadable parse)

/-- Reads the name of a member behind a point. -/
def propertyName : Reader Unit := do
  if ← sees "#" then node "private_property_identifier" do
    anyToken
    word "identifier"
  else word "property_identifier"

/-- Reads a member behind a point. -/
def member : Reader Unit := wrap "member_expression" "object" do
  token "."
  field "property" propertyName

/-- Reads a subscript, behind `?.` if it is `optional`. -/
def subscript : Reader Unit := wrap "subscript_expression" "object" do
  token "["
  field "index" (parse .expressions)
  token "]"

/-- Reads the arguments of a call of the expression read last. -/
def call : Reader Unit := wrap "call_expression" "function" do
  field "arguments" (arguments parse)

/-- Reads what follows `?.`, with that token. -/
def optionalChain : Reader Unit := do
  let mark := field "optional_chain" (leaf "optional_chain" 2)
  if ← behind (sees "[") then wrap "subscript_expression" "object" do
    mark
    token "["
    field "index" (parse .expressions)
    token "]"
  else if ← behind (seesAny ["(", "<"]) then wrap "call_expression" "function" do
    mark
    typeArguments? parse
    field "arguments" (arguments parse)
  else wrap "member_expression" "object" do
    mark
    field "property" propertyName

/-- Reads a decorator: a name with members and at most one call, or any expression in
parentheses. -/
def decorator : Reader Unit := node "decorator" do
  token "@"
  if ← sees "(" then node "parenthesized_expression" do
    anyToken
    parse .expressions
    token ")"
  else
    name "identifier"
    many do
      if ← sees "." then
        member
        return true
      else return false
    if (← sees "(") || ((← get).dialect.types && (← seesAngle)) then
      wrap "call_expression" "function" do
        typeArguments? parse
        field "arguments" (arguments parse)

/-- Reads decorators. -/
def decorators : Reader Unit := many do
  if ← sees "@" then
    field "decorator" (decorator parse)
    return true
  else return false

end RepoSurvey.Script
