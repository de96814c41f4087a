import RepoSurvey.Script.Function
import RepoSurvey.Script.Markup

/-!
# Expressions

Operators are grouped from the left, whatever their rank: the names that a tree yields do not depend
on how the operands of an expression are grouped, only on which of them come first.

Two constructs show only at their end what they are. Parentheses are read as an expression, and once
more as the parameters of an arrow function if an arrow follows; an array or an object is read once
more as a pattern if an assignment follows.
-/

namespace RepoSurvey.Script

variable (parse : Grammar)

/-! ### Objects and arrays -/

/-- Reads one member of an object. -/
def objectMember : Reader Unit := do
  if ← sees "..." then spreadable parse
  else build do
    modifiers ["async", "get", "set"]
    let _ ← token? "*"
    let plain ← seesName
    memberName parse
    if ← seesAny ["(", "<"] then
      fieldLast "name"
      heading parse
      body parse
      return "method_definition"
    else if ← sees ":" then
      fieldLast "key"
      anyToken
      field "value" (parse .expression)
      return "pair"
    else
      check (plain && (← get).done.length == 1)
      return "shorthand"

/-- Gives a name alone among the members of an object its own kind. -/
def flattenShorthand : Code.Node → Code.Node
  | .mk "shorthand" _ _ _ _ [.mk _ named start stop field children] =>
    .mk "shorthand_property_identifier" named start stop field children
  | n => n

/-- Reads an object. -/
def object : Reader Unit := node "object" do
  token openBrace
  listUntil closeBrace do
    objectMember parse
    modify fun s ↦ match s.done with
      | last :: outer => { s with done := flattenShorthand last :: outer }
      | [] => s

/-- Reads an array; places may be left out. -/
def array : Reader Unit := node "array" do
  token "["
  many do
    if ← sees "]" then return false
    if ← token? "," then return true
    spreadable parse
    if ← token? "," then return true
    check (← sees "]")
    return false
  token "]"

/-- Reads an array or an object, as a pattern if a value is assigned to it. -/
def collection : Reader Unit := do
  let start ← get
  let whole := if start.token == "[" then array parse else object parse
  if !(← attempt whole) || (← sees "=") then
    let behind ← get
    set start
    if !(← attempt (destructuring parse)) then
      check (behind.offset != start.offset)
      set behind

/-! ### Parentheses and arrows -/

/-- Reads an expression in parentheses. -/
def parenthesized : Reader Unit := node "parenthesized_expression" do
  token "("
  parse .expressions
  token ")"

/-- Reads an expression in parentheses or an arrow function. -/
def parenthesizedOrArrow : Reader Unit := do
  let start ← get
  if ← attempt (parenthesized parse) then
    let typed := start.dialect.types
    if (← sees "=>") || (typed && (← sees ":")) then
      let behind ← get
      set start
      if !(← attempt (arrowFunction parse)) then set behind
  else arrowFunction parse

/-- Reads what begins with the word `async` but not a function written with its keyword. -/
def asyncArrowOrName : Reader Unit := do
  if !(← attempt (arrowFunction parse)) then name "identifier"

/-! ### Operands -/

/-- The words that never begin an operand. -/
def interveningWords : List String :=
  ["in", "of", "instanceof", "as", "satisfies", "const", "let", "var", "if", "else", "for", "while",
    "do", "switch", "case", "default", "return", "break", "continue", "throw", "try", "catch",
    "finally", "export", "with", "debugger", "enum"]

/-- The marks that begin an operand. -/
def openingMarks : List String :=
  ["(", "[", openBrace, "<", "+", "-", "++", "--", "!", "~", "#", "@", "/", "/="]

/-- Whether the token in front may begin an operand. -/
def seesOperand : Reader Bool := do
  let s ← get
  return !(← atEnd) &&
    if s.word then !interveningWords.contains s.token
    else s.token == "" || openingMarks.contains s.token

/-- Reads what begins with the word `import`: a call that loads a module, or a property of the
module at hand. -/
def importExpression : Reader Unit := do
  if ← behind (sees ".") then node "meta_property" do
    anyToken
    token "."
    word "property_identifier"
  else
    leaf "import" 6
    check (← seesAny ["(", "<"])

/-- Reads a member without the arguments of a call, as far as it goes. -/
def memberChain : Reader Unit := many do
  if ← sees "." then
    member
    return true
  else if ← sees "[" then
    subscript parse
    return true
  else return false

/-- Reads what begins with the word `new`. -/
def newExpression : Reader Unit := do
  if ← behind (sees ".") then node "meta_property" do
    anyToken
    token "."
    word "property_identifier"
  else node "new_expression" do
    token "new"
    field "constructor" (parse .constructor)
    if (← get).dialect.types && (← seesAngle) then
      let _ ← attempt do
        typeArguments parse
        check ((← sees "(") || !(← seesOperand))
    if ← sees "(" then field "arguments" (arguments parse)

/-- Reads what begins with a word. -/
def wordOperand : Reader Unit := do
  let s ← get
  if ← behind do return (← sees "=>") && !(← get).newline then arrowFunction parse
  else if s.token == "async" then
    if ← seesFunction then functionExpression parse else asyncArrowOrName parse
  else if s.token == "function" then functionExpression parse
  else if s.token == "class" then readClass parse "class" false
  else if s.token == "new" then newExpression parse
  else if s.token == "import" then importExpression
  else if ["this", "super", "true", "false", "null"].contains s.token then
    leaf s.token s.token.length
  else variableName

/-- Reads an operand without operators around it. -/
def simpleOperand : Reader Unit := do
  let s ← get
  let c ← front
  if s.word then wordOperand parse
  else if ← seesString then readString
  else if ← seesNumber then readNumber
  else if c == '\x60' then readTemplate (parse .expressions)
  else if c == '/' then readRegex
  else if c == '(' then parenthesizedOrArrow parse
  else if c == '[' || c == '{' then collection parse
  else if c == '#' then
    propertyName
    check (← sees "in")
  else if c == '@' then readClass parse "class" false
  else if c == '<' && s.dialect.markup then
    let markup ← attempt do
      parse .element
      settle
    if !markup then
      check s.dialect.types
      arrowFunction parse
  else if c == '<' && s.dialect.types then
    if !(← attempt (arrowFunction parse)) then node "type_assertion" do
      if ← behind (sees "const") then
        anyToken
        anyToken
        token ">"
      else typeArguments parse
      parse .operand
  else failure

/-- Reads the type arguments of a call together with what makes it one. -/
def genericCall : Reader Unit := wrap "call_expression" "function" do
  typeArguments parse
  field "arguments" do
    if (← front) == '\x60' then readTemplate (parse .expressions) else arguments parse

/-- Reads the type arguments of what is not called. -/
def instantiation : Reader Unit := wrap "instantiation_expression" "function" do
  typeArguments parse
  check (!(← seesOperand))

/-- Reads one step of what may follow an operand. -/
def suffix : Reader Bool := do
  if ← reach parse then return true
  else if ← sees "?." then
    optionalChain parse
    return true
  else if (← front) == '\x60' then
    wrap "call_expression" "function" do
      field "arguments" (readTemplate (parse .expressions))
    return true
  else if (← get).dialect.types then
    if (← sees "!") && !(← get).newline then
      wrap "non_null_expression" "expression" anyToken
      return true
    else if ← seesAngle then
      if ← attempt (genericCall parse) then return true else attempt (instantiation parse)
    else return false
  else return false

/-- Reads what may stand behind `new`. -/
def constructor : Reader Unit := do
  if (← sees "new") && !(← behind (sees ".")) then newExpression parse
  else if ← sees "(" then parenthesized parse
  else simpleOperand parse
  memberChain parse

/-- The words and marks in front of an operand that make it an operand again. -/
def unaryOperators : List String := ["!", "~", "-", "+", "typeof", "void", "delete"]

/-- Reads an operand with the operators that belong to it alone. -/
def operand : Reader Unit := do
  if ← seesAny unaryOperators then node "unary_expression" do
    field "operator" anyToken
    field "argument" (parse .operand)
  else if ← seesAny ["++", "--"] then node "update_expression" do
    field "operator" anyToken
    field "argument" (parse .operand)
  else if (← sees "await") && !(← behind (sees "=>")) then node "await_expression" do
    anyToken
    parse .operand
  else
    simpleOperand parse
    many (suffix parse)
    if (← seesAny ["++", "--"]) && !(← get).newline then
      check ((targetKinds ++ ["parenthesized_expression", "non_null_expression"]).contains
        (← lastKind))
      wrap "update_expression" "argument" (field "operator" anyToken)

/-! ### Expressions -/

/-- The operators between two operands. -/
def binaryOperators : List String :=
  ["&&", "||", "??", ">>", ">>>", "<<", "&", "^", "|", "+", "-", "*", "/", "%", "**", "<", "<=",
    "==", "===", "!=", "!==", ">=", ">", "instanceof", "in"]

/-- The operators that change what they assign to. -/
def augmentedOperators : List String :=
  ["+=", "-=", "*=", "/=", "%=", "^=", "&=", "|=", ">>=", ">>>=", "<<=", "**=", "&&=", "||=", "??="]

/-- Reads operands with operators between them. -/
def operation : Reader Unit := do
  parse .operand
  many do
    if ← seesAny binaryOperators then
      wrap "binary_expression" "left" do
        field "operator" anyToken
        field "right" (parse .operand)
      return true
    else if (← get).dialect.types && !(← get).newline && (← seesAny ["as", "satisfies"]) then
      wrap (if ← sees "as" then "as_expression" else "satisfies_expression") "left" do
        anyToken
        if ← sees "const" then anyToken else parse .type
      return true
    else return false

/-- Whether an expression may begin with the token in front. -/
def seesExpression : Reader Bool := do
  return !(← seesAny [")", "]", closeBrace, ",", ";", ":", "in", "of"]) && !(← atEnd)

/-- Reads what begins with the word `yield`. -/
def yieldExpression : Reader Unit := node "yield_expression" do
  token "yield"
  if ← token? "*" then parse .expression
  else if (← seesExpression) && !(← get).newline then parse .expression

/-- The kinds of expression that may stand left of an assignment. -/
def assignableKinds : List String :=
  targetKinds ++ ["parenthesized_expression", "object_pattern", "array_pattern",
    "non_null_expression"]

/-- The kinds of expression that may be changed by an assignment. -/
def changeableKinds : List String :=
  targetKinds ++ ["parenthesized_expression", "non_null_expression"]

/-- Reads an expression. -/
def expression : Reader Unit := do
  if (← sees "yield") && !(← behind (sees "=>")) then yieldExpression parse
  else
    operation parse
    if ← sees "?" then wrap "ternary_expression" "condition" do
      anyToken
      field "consequence" (parse .expression)
      token ":"
      field "alternative" (parse .expression)
    else if ← sees "=" then
      check (assignableKinds.contains (← lastKind))
      wrap "assignment_expression" "left" do
        anyToken
        field "right" (parse .expression)
    else
      check (!(["object_pattern", "array_pattern"] : List String).contains (← lastKind))
      if ← seesAny augmentedOperators then
        check (changeableKinds.contains (← lastKind))
        wrap "augmented_assignment_expression" "left" do
          field "operator" anyToken
          field "right" (parse .expression)

/-- Reads expressions with commas between them. -/
def expressions : Reader Unit := do
  parse .expression
  many do
    if ← sees "," then
      wrap "sequence_expression" "left" do
        anyToken
        parse .expression
      return true
    else return false

end RepoSurvey.Script
