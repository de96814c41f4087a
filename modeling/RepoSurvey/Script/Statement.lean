import RepoSurvey.Script.Expression

/-!
# Statements and declarations

Statements, the declarations among them, and the statements by which modules import and export. A
word such as `type` or `namespace` opens a declaration only if what follows it fits; elsewhere it is
a name like any other.
-/

namespace RepoSurvey.Script

variable (parse : Grammar)

/-! ### Variables -/

/-- Reads the declaration of one variable. -/
def declarator : Reader Unit := node "variable_declarator" do
  field "name" (binding parse)
  let types := (← get).dialect.types
  if types && (← sees "!") then anyToken
  annotation? parse
  if ← token? "=" then field "value" (parse .expression)

/-- Whether `let` in front opens a declaration. -/
def seesLet : Reader Bool := do
  if ← sees "let" then
    behind do return (← seesName) || (← seesDestructuring)
  else return false

/-- Whether a declaration of variables is in front. -/
def seesVariables : Reader Bool := do return (← seesAny ["const", "var"]) || (← seesLet)

/-- Reads a declaration of variables without its end. -/
def variableList : Reader String := do
  let kind := if ← sees "var" then "variable_declaration" else "lexical_declaration"
  field "kind" anyToken
  separated (declarator parse)
  return kind

/-- Reads a declaration of variables. -/
def variableDeclaration : Reader Unit := build do
  let kind ← variableList parse
  semicolon
  return kind

/-! ### Declarations of types -/

/-- Reads the declaration of an interface. -/
def interfaceDeclaration : Reader Unit := node "interface_declaration" do
  token "interface"
  field "name" (name "type_identifier")
  typeParameters? parse
  if ← sees "extends" then node "extends_type_clause" do
    anyToken
    separated (parse .type)
  field "body" (objectType parse "interface_body")

/-- Reads the declaration of a type's name. -/
def typeAlias : Reader Unit := node "type_alias_declaration" do
  token "type"
  field "name" (name "type_identifier")
  typeParameters? parse
  token "="
  field "value" (parse .type)
  semicolon

/-- Reads the declaration of an enumeration. -/
def enumDeclaration : Reader Unit := node "enum_declaration" do
  let _ ← token? "const"
  token "enum"
  field "name" (name "identifier")
  field "body" do
    node "enum_body" do
      token openBrace
      listUntil closeBrace do
        memberName parse
        if ← sees "=" then wrap "enum_assignment" "name" do
          anyToken
          field "value" (parse .expression)

/-- Reads the declaration of a namespace. -/
def namespaceDeclaration : Reader Unit := build do
  let kind := if ← sees "namespace" then "internal_module" else "module"
  anyToken
  field "name" do
    if ← seesString then readString
    else
      name "identifier"
      qualified "nested_identifier"
  if ← sees openBrace then field "body" (parse .block) else semicolon
  return kind

/-- Whether a word in front opens a declaration of a type: a name stands behind it in its line. -/
def opens (w : String) : Reader Bool := do
  if ← sees w then behind do return (← seesName) && !(← get).newline
  else return false

/-- Whether a declaration of a namespace is in front. -/
def seesNamespace : Reader Bool := do
  if (← opens "namespace") || (← opens "module") then return true
  if ← sees "module" then behind do return (← seesString) && !(← get).newline
  else return false

/-- Whether an abstract class is in front. -/
def seesAbstractClass : Reader Bool := do
  if ← sees "abstract" then behind (sees "class") else return false

/-- Whether an enumeration is in front. -/
def seesEnum : Reader Bool := do
  if ← sees "const" then behind (sees "enum") else sees "enum"

/-- Whether a declaration is in front that only sources with types have. -/
def seesTypedDeclaration : Reader Bool := do
  if !(← get).dialect.types then return false
  if ← opens "interface" then return true
  if ← opens "type" then return true
  if ← seesEnum then return true
  if ← seesNamespace then return true
  seesAbstractClass

/-- Reads a declaration that only sources with types have. -/
def typedDeclaration : Reader Unit := do
  if ← sees "interface" then interfaceDeclaration parse
  else if ← sees "type" then typeAlias parse
  else if ← seesEnum then enumDeclaration parse
  else if ← sees "abstract" then readClass parse "abstract_class_declaration" true
  else namespaceDeclaration parse

/-- Whether a class is in front, behind decorators or not. -/
def seesClass : Reader Bool := seesAny ["class", "@"]

/-- Reads a class as a declaration, with its decorators. -/
def classDeclaration : Reader Unit := do
  let abstract ← ahead do
    decorators parse
    check (← sees "abstract")
  readClass parse (if abstract then "abstract_class_declaration" else "class_declaration") true

/-- Whether a function in front has a name. -/
def seesNamedFunction : Reader Bool := do
  if ← seesFunction then ahead do
    let _ ← functionWords
    check (← seesName)
  else return false

/-- Whether a declaration is in front. -/
def seesDeclaration : Reader Bool := do
  if ← seesVariables then return true
  if ← seesNamedFunction then return true
  if ← seesClass then return true
  seesTypedDeclaration

/-- Reads a declaration. -/
def declaration : Reader Unit := do
  if ← seesTypedDeclaration then typedDeclaration parse
  else if ← seesVariables then variableDeclaration parse
  else if ← seesFunction then functionDeclaration parse
  else classDeclaration parse

/-! ### Declarations of what exists elsewhere -/

/-- Whether such a declaration is in front. -/
def seesAmbient : Reader Bool := do
  if !(← get).dialect.types then return false
  if !(← sees "declare") then return false
  behind do return (← seesWord) && !(← get).newline && !(← seesAny ["in", "instanceof", "as"])

/-- Reads a declaration of what exists elsewhere. -/
def ambientDeclaration : Reader Unit := node "ambient_declaration" do
  token "declare"
  if (← sees "global") && (← behind (sees openBrace)) then
    anyToken
    parse .block
  else if ← seesDeclaration then declaration parse
  else importOrExport
where
  /-- Reads the re-declaration of an import or an export. -/
  importOrExport : Reader Unit := do
    check (← seesAny ["import", "export"])
    parse .statement

/-! ### Imports -/

/-- Reads `from` and the source behind it. -/
def sourceClause : Reader Unit := do
  token "from"
  field "source" readString

/-- Reads the attributes of an import. -/
def importAttributes : Reader Unit := do
  if (← seesAny ["with", "assert"]) && (← behind (sees openBrace)) then
    node "import_attribute" do
      anyToken
      object parse

/-- Reads the name of an imported or exported thing. -/
def moduleName (kind : String) : Reader Unit := do
  if ← seesString then readString
  else if (← sees "default") && !(← get).dialect.types then anyToken
  else word kind

/-- Reads one name of a list of imports or exports. -/
def specifier (kind : String) : Reader Unit := node kind do
  if (← get).dialect.types && (← seesAny ["type", "typeof"]) then
    let modifies ← behind do
      return (← seesString) || ((← seesWord) && !(← sees "as")) ||
        ((← sees "as") && (← behind (sees "as")))
    if modifies then anyToken
  field "name" (moduleName "identifier")
  if ← token? "as" then field "alias" (moduleName "identifier")

/-- Reads a list of imports or exports in braces. -/
def specifiers (kind item : String) : Reader Unit := node kind do
  token openBrace
  listUntil closeBrace (specifier item)

/-- Reads what an import binds. -/
def importClause : Reader Unit := node "import_clause" do
  if ← seesName then
    name "identifier"
    if !(← token? ",") then return
  if ← sees "*" then node "namespace_import" do
    anyToken
    token "as"
    name "identifier"
  else specifiers "named_imports" "import_specifier"

/-- Reads the end of an import by `require`. -/
def requireClause : Reader Unit := node "import_require_clause" do
  name "identifier"
  token "="
  token "require"
  token "("
  field "source" readString
  token ")"

/-- Reads the declaration of another name for a member of a namespace. -/
def importAlias : Reader Unit := node "import_alias" do
  token "import"
  name "identifier"
  token "="
  name "identifier"
  qualified "nested_identifier"
  semicolon

/-- Whether a name for a member of a namespace is declared in front. -/
def seesImportAlias : Reader Bool := do
  if (← get).dialect.types then ahead do
    token "import"
    name "identifier"
    token "="
    check (!((← sees "require") && (← behind (sees "("))))
  else return false

/-- Whether `type` in front says that an import is one of types only. -/
def seesTypeOnly : Reader Bool := do
  if (← get).dialect.types && (← seesAny ["type", "typeof"]) then
    behind do
      return (← seesAny ["*", openBrace]) || ((← seesName) && !(← sees "from")) ||
        ((← sees "from") && (← behind (sees "from")))
  else return false

/-- Reads an import. -/
def importStatement : Reader Unit := node "import_statement" do
  token "import"
  if ← seesString then field "source" readString
  else
    if ← seesTypeOnly then anyToken
    if (← seesName) && (← behind (sees "=")) then
      check (← get).dialect.types
      requireClause
    else
      importClause
      sourceClause
  importAttributes parse
  semicolon

/-! ### Exports -/

/-- Reads what follows `export default`. -/
def defaultExport : Reader Unit := do
  token "default"
  let declares ← do
    if ← seesNamedFunction then pure true
    else if ← seesTypedDeclaration then pure (!(← seesEnum) && !(← sees "type"))
    else ahead do
      decorators parse
      let _ ← token? "abstract"
      token "class"
      check ((← seesName) && !(← seesAny ["extends", "implements"]))
  if declares then field "declaration" (declaration parse)
  else
    field "value" (parse .expression)
    semicolon

/-- Reads an export of everything. -/
def starExport : Reader Unit := do
  if ← behind (sees "as") then node "namespace_export" do
    anyToken
    anyToken
    moduleName "identifier"
  else anyToken
  sourceClause
  importAttributes parse
  semicolon

/-- Reads an export of listed names. -/
def listExport : Reader Unit := do
  specifiers "export_clause" "export_specifier"
  if ← sees "from" then
    sourceClause
    importAttributes parse
  semicolon

/-- Reads an export, with the decorators in front of it. -/
def exportStatement : Reader Unit := node "export_statement" do
  decorators parse
  token "export"
  let types := (← get).dialect.types
  if ← sees "default" then defaultExport parse
  else if ← sees "*" then starExport parse
  else if ← sees openBrace then listExport parse
  else if types && (← sees "type") && (← behind (sees openBrace)) then
    anyToken
    listExport parse
  else if types && (← sees "=") then
    anyToken
    parse .expression
    semicolon
  else if types && (← sees "as") then
    anyToken
    token "namespace"
    name "identifier"
    semicolon
  else if types && (← sees "import") then field "declaration" importAlias
  else if ← seesAmbient then field "declaration" (ambientDeclaration parse)
  else
    check (← seesDeclaration)
    field "declaration" (declaration parse)

/-! ### Statements -/

/-- Reads statements in braces. -/
def statementBlock : Reader Unit := node "statement_block" do
  token openBrace
  many do
    if ← sees closeBrace then return false
    parse .statement
    return true
  token closeBrace

/-- Reads a condition in parentheses. -/
def condition : Reader Unit := field "condition" (parenthesized parse)

/-- Reads an `if`. -/
def ifStatement : Reader Unit := node "if_statement" do
  token "if"
  condition parse
  field "consequence" (parse .statement)
  if ← sees "else" then field "alternative" do
    node "else_clause" do
      anyToken
      parse .statement

/-- Reads the head of a loop over the parts of a value, without its parentheses. -/
def partsHead : Reader Unit := do
  if ← seesVariables then
    field "kind" anyToken
    field "left" (binding parse)
    if ← sees "=" then
      anyToken
      parse .operand
  else field "left" do
    if ← sees "(" then parenthesized parse else parse .pattern
  check (← seesAny ["in", "of"])
  field "operator" anyToken

/-- Reads the head of a loop with a counter, without its parentheses. -/
def counterHead : Reader Unit := do
  if ← seesVariables then variableDeclaration parse
  else
    if !(← sees ";") then parse .expressions
    token ";"
  if !(← sees ";") then parse .expressions
  token ";"
  if !(← sees ")") then parse .expressions

/-- Reads a `for`. -/
def forStatement : Reader Unit := build do
  token "for"
  let _ ← token? "await"
  token "("
  if ← attempt (partsHead parse) then
    field "right" (parse .expressions)
    token ")"
    field "body" (parse .statement)
    return "for_in_statement"
  counterHead parse
  token ")"
  field "body" (parse .statement)
  return "for_statement"

/-- Reads one case of a `switch`. -/
def switchCase : Reader Unit := build do
  let kind ← do
    if ← token? "case" then
      parse .expressions
      pure "switch_case"
    else
      token "default"
      pure "switch_default"
  token ":"
  many do
    if ← seesAny ["case", "default", closeBrace] then return false
    parse .statement
    return true
  return kind

/-- Reads a `switch`. -/
def switchStatement : Reader Unit := node "switch_statement" do
  token "switch"
  parenthesized parse
  node "switch_body" do
    token openBrace
    many do
      if ← sees closeBrace then return false
      switchCase parse
      return true
    token closeBrace

/-- Reads a `try`. -/
def tryStatement : Reader Unit := node "try_statement" do
  token "try"
  field "body" (parse .block)
  if ← sees "catch" then field "handler" do
    node "catch_clause" do
      anyToken
      if ← token? "(" then
        field "parameter" (binding parse)
        annotation? parse
        token ")"
      field "body" (parse .block)
  if ← sees "finally" then field "finalizer" do
    node "finally_clause" do
      anyToken
      field "body" (parse .block)

/-- Reads a statement that is one word and perhaps a value. -/
def wordStatement (kind : String) (value : Reader Unit) : Reader Unit := node kind do
  let s ← get
  leaf s.token s.token.length
  if !(← sees ";") && !(← mayEnd) then value
  semicolon

/-- Reads a statement that begins with a word that opens no declaration. -/
def keywordStatement? : Reader Bool := do
  let s ← get
  match s.token with
  | "if" => ifStatement parse
  | "for" => forStatement parse
  | "switch" => switchStatement parse
  | "try" => tryStatement parse
  | "while" => node "while_statement" do
    anyToken
    condition parse
    field "body" (parse .statement)
  | "with" => node "with_statement" do
    anyToken
    field "object" (parenthesized parse)
    field "body" (parse .statement)
  | "do" => node "do_statement" do
    anyToken
    field "body" (parse .statement)
    token "while"
    condition parse
    let _ ← token? ";"
  | "return" => wordStatement "return_statement" (parse .expressions)
  | "throw" => node "throw_statement" do
    anyToken
    parse .expressions
    semicolon
  | "break" => wordStatement "break_statement" (field "label" (name "statement_identifier"))
  | "continue" => wordStatement "continue_statement" (field "label" (name "statement_identifier"))
  | "debugger" => wordStatement "debugger_statement" (pure ())
  | "export" => exportStatement parse
  | "import" =>
    if ← behind (seesAny ["(", "."]) then return false
    if ← seesImportAlias then importAlias else importStatement parse
  | _ => return false
  return true

/-- Reads an expression as a statement. -/
def expressionStatement : Reader Unit := node "expression_statement" do
  parse .expressions
  semicolon

/-- Whether a class or an export behind decorators is in front. -/
def seesDecorated : Reader Bool := do
  if ← sees "@" then ahead do
    decorators parse
    check (← sees "export")
  else return false

/-- Whether a class in front has a name. -/
def seesNamedClass : Reader Bool := ahead do
  decorators parse
  token "class"
  check ((← seesName) && !(← sees "implements"))

/-- Reads a statement. -/
def statement : Reader Unit := do
  if ← sees openBrace then parse .block
  else if ← sees ";" then node "empty_statement" anyToken
  else if (← seesName) && (← behind (sees ":")) then node "labeled_statement" do
    field "label" (name "statement_identifier")
    anyToken
    field "body" (parse .statement)
  else if ← seesDecorated parse then exportStatement parse
  else if ← seesAmbient then ambientDeclaration parse
  else if ← seesTypedDeclaration then typedDeclaration parse
  else if ← seesVariables then variableDeclaration parse
  else if ← seesNamedFunction then functionDeclaration parse
  else if (← seesClass) && (← seesNamedClass parse) then
    readClass parse "class_declaration" true
  else if (← sees "@") then classDeclaration parse
  else if !(← keywordStatement? parse) then expressionStatement parse

end RepoSurvey.Script
