import RepoSurvey.Script.Member

/-!
# Patterns

What a value can be bound or assigned to: a name, a member of an object, or a pattern that takes an
object or an array apart, with defaults for the parts.
-/

namespace RepoSurvey.Script

variable (parse : Grammar)

/-- Reads a pattern and its default. -/
def patternWithDefault : Reader Unit := do
  parse .pattern
  if ← sees "=" then wrap "assignment_pattern" "left" do
    anyToken
    field "right" (parse .expression)

/-- Reads the part of a pattern that takes what is left. -/
def restPattern : Reader Unit := node "rest_pattern" do
  token "..."
  parse .pattern

/-- Reads one member of an object pattern. -/
def objectPatternMember : Reader Unit := do
  if ← sees "..." then restPattern parse
  else if ← behind (sees ":") then node "pair_pattern" do
    field "key" (memberName parse)
    token ":"
    field "value" (patternWithDefault parse)
  else if ← seesName then
    name "shorthand_property_identifier_pattern"
    if ← sees "=" then wrap "object_assignment_pattern" "left" do
      anyToken
      field "right" (parse .expression)
  else node "pair_pattern" do
    field "key" (memberName parse)
    token ":"
    field "value" (patternWithDefault parse)

/-- Reads a pattern that takes an object apart. -/
def objectPattern : Reader Unit := node "object_pattern" do
  token openBrace
  listUntil closeBrace (objectPatternMember parse)

/-- Reads a pattern that takes an array apart; places may be left out. -/
def arrayPattern : Reader Unit := node "array_pattern" do
  token "["
  many do
    if ← sees "]" then return false
    if ← token? "," then return true
    if ← sees "..." then restPattern parse else patternWithDefault parse
    if ← token? "," then return true
    check (← sees "]")
    return false
  token "]"

/-- Whether a pattern that takes a value apart is in front. -/
def seesDestructuring : Reader Bool := seesAny [openBrace, "["]

/-- Reads a pattern that takes a value apart. -/
def destructuring : Reader Unit := do
  if ← sees openBrace then objectPattern parse else arrayPattern parse

/-- Reads the name of a variable; `undefined` has a kind of its own. -/
def variableName : Reader Unit := do
  if ← sees "undefined" then leaf "undefined" 9 else name "identifier"

/-- Reads a name, or a pattern that takes a value apart. -/
def binding : Reader Unit := do
  if ← seesDestructuring then destructuring parse else name "identifier"

/-- The kinds of expression that a value can be assigned to. -/
def targetKinds : List String :=
  ["identifier", "undefined", "member_expression", "subscript_expression"]

/-- Reads a member, a subscript or a call, if one follows. -/
def reach : Reader Bool := do
  if ← sees "." then
    member
    return true
  else if ← sees "[" then
    subscript parse
    return true
  else if ← sees "(" then
    call parse
    return true
  else return false

/-- Reads a pattern. -/
def readPattern : Reader Unit := do
  if ← seesDestructuring then destructuring parse
  else
    if ← seesAny ["this", "super"] then leaf (← get).token (← get).token.length else variableName
    many (reach parse)
    check (targetKinds.contains (← lastKind))

end RepoSurvey.Script
