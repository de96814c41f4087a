import RepoSurvey.Script.Literal

/-!
# Types in a script

Types as they stand behind a colon, after `as`, between angle brackets and in declarations. The
type `import('x')` is a call of `import`, wherever in a type it stands.
-/

namespace RepoSurvey.Script

variable (parse : Grammar)

/-- Reads the closing angle bracket, which may be the front of a longer punctuator. -/
def closeAngle : Reader Unit := split '>'

/-- Whether an opening angle bracket is in front. -/
def seesAngle : Reader Bool := sees "<"

/-- Reads the type behind a colon, if there is one. -/
def annotation? : Reader Unit := do
  if (← get).dialect.types && (← sees ":") then
    node "type_annotation" do
      anyToken
      parse .type

/-- Reads a list of types in angle brackets. -/
def typeArguments : Reader Unit := node "type_arguments" do
  token "<"
  many do
    if (← front) == '>' then return false
    parse .type
    if ← token? "," then return true
    check ((← front) == '>')
    return false
  closeAngle

/-- Reads a list of types in angle brackets, if one is in front. -/
def typeArguments? : Reader Unit := do
  if ← seesAngle then typeArguments parse

/-- Reads a type parameter. -/
def typeParameter : Reader Unit := node "type_parameter" do
  many do
    let modifier ← seesAny ["const", "in", "out"]
    if modifier && (← behind seesWord) then
      anyToken
      return true
    else return false
  word "type_identifier"
  if ← token? "extends" then parse .type
  if ← token? "=" then parse .type

/-- Reads type parameters in angle brackets, if they are in front and types are allowed. -/
def typeParameters? : Reader Unit := do
  if (← get).dialect.types && (← seesAngle) then
    node "type_parameters" do
      anyToken
      many do
        if (← front) == '>' then return false
        typeParameter parse
        if ← token? "," then return true
        check ((← front) == '>')
        return false
      closeAngle

/-! ### Members of object types -/

/-- Reads the arguments of a call of `import`. -/
def importArguments : Reader Unit := node "arguments" do
  token "("
  listUntil ")" (parse .expression)

/-- Reads the name of a member. -/
def memberName : Reader Unit := do
  if ← seesWord then word "property_identifier"
  else if ← seesString then readString
  else if ← seesNumber then readNumber
  else if ← sees "#" then node "private_property_identifier" do
    anyToken
    word "identifier"
  else node "computed_property_name" do
    token "["
    parse .expression
    token "]"

/-- Whether the token in front ends the name of a member. -/
def endsName : Reader Bool := do
  let s ← get
  return s.rest.isEmpty ||
    ["(", "<", ":", "?", "!", ";", ",", "=", closeBrace].contains s.token

/-- Reads a parameter of a function type, or what stands like one. -/
def typedParameter : Reader Unit := node "required_parameter" do
  let _ ← token? "..."
  if ← sees "this" then leaf "this" 4 else parse .pattern
  let _ ← token? "?"
  annotation? parse
  if ← token? "=" then parse .expression

/-- Reads the parameters of a function type. -/
def typedParameters : Reader Unit := node "formal_parameters" do
  token "("
  listUntil ")" (typedParameter parse)

/-- Reads type parameters, parameters and the type behind a colon. -/
def signature : Reader Unit := do
  typeParameters? parse
  typedParameters parse
  annotation? parse

/-- Reads the bracketed part of an index signature or of a mapped type. -/
def indexKey : Reader Unit := do
  token "["
  word "identifier"
  if ← token? "in" then
    parse .type
    if ← token? "as" then parse .type
  else annotation? parse
  token "]"

/-- Reads a sign in front of a modifier of a mapped type. -/
def sign? : Reader Unit := do
  if ← seesAny ["+", "-"] then anyToken

/-- Whether a mapped or indexed key is in front. -/
def seesIndexKey : Reader Bool := ahead do
  token "["
  word "identifier"
  check (← seesAny [":", "in"])

/-- Reads one member of an object type. -/
def typeMember : Reader Unit := build do
  if ← seesAny ["(", "<"] then
    signature parse
    return "call_signature"
  let callable := seesAny ["(", "<"]
  if (← sees "new") && (← behind callable) then
    anyToken
    signature parse
    return "construct_signature"
  many do
    let modifier ← seesAny ["readonly", "get", "set", "static", "public", "private", "protected"]
    if modifier && !(← behind endsName) then
      anyToken
      return true
    else if (← seesAny ["+", "-"]) && (← behind (sees "readonly")) then
      anyToken
      anyToken
      return true
    else return false
  if ← seesIndexKey then
    indexKey parse
    sign?
    let _ ← token? "?"
    annotation? parse
    return "index_signature"
  field "name" (memberName parse)
  let _ ← token? "?"
  if ← seesAny ["(", "<"] then
    signature parse
    return "method_signature"
  annotation? parse
  return "property_signature"

/-- Reads the members of an object type in braces. -/
def objectType (kind : String) : Reader Unit := node kind do
  token openBrace
  many do
    if ← sees closeBrace then return false
    if ← seesAny [";", ","] then
      anyToken
      return true
    typeMember parse
    if ← seesAny [";", ","] then
      anyToken
      return true
    check (← mayEnd)
    return true
  token closeBrace

/-! ### Types -/

/-- Reads a function type. -/
def functionType : Reader Unit := node "function_type" do
  let _ ← token? "abstract"
  let _ ← token? "new"
  typeParameters? parse
  typedParameters parse
  token "=>"
  parse .type

/-- Reads one part of a tuple type. -/
def tupleElement : Reader Unit := do
  let _ ← token? "..."
  let named ← ahead do
    word "identifier"
    let _ ← token? "?"
    check (← sees ":")
  if named then node "required_parameter" do
    word "identifier"
    let _ ← token? "?"
    annotation? parse
  else
    parse .type
    let _ ← token? "?"

/-- Reads a call of `import` inside a type. -/
def importType : Reader Unit := do
  leaf "import" 6
  wrap "call_expression" "function" (field "arguments" (importArguments parse))

/-- Reads what follows the front of a type name: further names behind points. -/
def qualified (kind : String) : Reader Unit := many do
  if ← sees "." then
    wrap kind "module" do
      anyToken
      field "name" (word "type_identifier")
    return true
  else return false

/-- Reads a type without prefixes and suffixes. -/
def plainType : Reader Unit := do
  if ← sees "(" then
    if !(← attempt (functionType parse)) then node "parenthesized_type" do
      anyToken
      parse .type
      token ")"
  else if ← seesAny ["<", "new"] then functionType parse
  else if (← sees "abstract") && (← behind (sees "new")) then functionType parse
  else if ← sees openBrace then objectType parse "object_type"
  else if ← sees "[" then node "tuple_type" do
    anyToken
    listUntil "]" (tupleElement parse)
  else if ← sees "import" then
    importType parse
    qualified "member_expression"
    typeArguments? parse
  else if ← sees "typeof" then node "type_query" do
    anyToken
    if ← sees "import" then importType parse else word "identifier"
    qualified "member_expression"
    if !(← get).newline then typeArguments? parse
  else if ← sees "-" then node "literal_type" do
    anyToken
    readNumber
  else if ← seesString then node "literal_type" readString
  else if ← seesNumber then node "literal_type" readNumber
  else if (← front) == '\x60' then readTemplate (parse .type)
  else if ← seesAny ["void", "this", "null", "true", "false"] then
    leaf "predefined_type" (← get).token.length
  else
    name "type_identifier"
    qualified "nested_type_identifier"
    if ← seesAngle then wrap "generic_type" "name" (typeArguments parse)

/-- Whether a type may begin with the token in front. -/
def seesType : Reader Bool := do
  let s ← get
  return s.word || (← seesString) || (← seesNumber) || s.rest.head? == some '\x60' ||
    ["(", "<", "[", openBrace, "-"].contains s.token

/-- Reads a type without operators between its parts. -/
def simpleType : Reader Unit := do
  if (← seesAny ["keyof", "unique", "readonly", "infer"]) && (← behind seesType) then
    build do
      let infers ← sees "infer"
      anyToken
      if infers then
        word "type_identifier"
        let bounded ← ahead do
          token "extends"
          parse .simpleType
          check (!(← sees "?"))
        if bounded then
          anyToken
          parse .simpleType
        return "infer_type"
      else
        parse .simpleType
        return "index_type_query"
  else
    plainType parse
    many do
      if (← sees "[") && !(← get).newline then
        wrap "array_type" "element" do
          anyToken
          if !(← sees "]") then parse .type
          token "]"
        return true
      else return false

/-- Reads types with `|` and `&` between them. -/
def unionType : Reader Unit := do
  if ← seesAny ["|", "&"] then anyToken
  parse .simpleType
  many do
    if ← seesAny ["|", "&"] then
      wrap "union_type" "left" do
        anyToken
        parse .simpleType
      return true
    else return false

/-- Reads a statement about the type of a value, as it stands for the result of a function. -/
def typePredicate : Reader Unit := node "type_predicate" do
  let asserts := (← sees "asserts") && (← behind seesWord)
  if asserts then anyToken
  if ← sees "this" then leaf "this" 4 else name "identifier"
  if asserts && !(← sees "is") then return
  check (!(← get).newline)
  token "is"
  parse .type

/-- Reads a type. -/
def readType : Reader Unit := do
  let asserts := (← sees "asserts") && (← behind seesWord)
  if asserts || ((← seesWord) && (← behind (sees "is"))) then
    if ← attempt (typePredicate parse) then return
  unionType parse
  if (← sees "extends") && !(← get).newline then
    wrap "conditional_type" "left" do
      anyToken
      parse .simpleType
      many do
        if ← seesAny ["|", "&"] then
          anyToken
          parse .simpleType
          return true
        else return false
      token "?"
      parse .type
      token ":"
      parse .type

end RepoSurvey.Script
