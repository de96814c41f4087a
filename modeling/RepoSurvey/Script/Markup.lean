import RepoSurvey.Script.Member

/-!
# Markup in a script

Elements with attributes and children. Between the tags there are no tokens: text runs up to the
next tag or value, and in it an ampersand must begin a character reference. An element therefore
stops right behind its last bracket, and whoever reads it goes on to the next token.
-/

namespace RepoSurvey.Script

variable (parse : Grammar)

/-- Whether a character reference, without its ampersand, is in front of a text. -/
def isReference (cs : List Char) : Bool :=
  let isClosed := fun (valid : Char → Bool) (most : Nat) (ds : List Char) ↦
    let run := ds.takeWhile valid
    0 < run.length && run.length ≤ most && (ds.drop run.length).head? == some ';'
  match cs with
  | '#' :: x :: ds =>
    if x == 'x' || x == 'X' then isClosed (fun c ↦ (Text.hexDigit? c).isSome) 6 ds
    else isClosed isDigit 5 (x :: ds)
  | cs => isClosed Char.isAlpha 30 cs

/-- The length of the text between tags, which is refused if it has a stray bracket, brace or
ampersand. -/
def markupText? : List Char → Option Nat
  | [] => none
  | c :: cs =>
    if c == '<' || c == '{' then some 0
    else if c == '>' || c == '}' then none
    else if c == '&' && !isReference cs then none
    else (markupText? cs).map (· + 1)

/-- The length of a quoted attribute behind its opening quote, with the closing quote. -/
def attributeLength? (quote : Char) : List Char → Option Nat
  | [] => none
  | c :: cs => if c == quote then some 1 else (attributeLength? quote cs).map (· + 1)

/-- The length of a name in markup, in which hyphens may stand. -/
def markupNameLength (cs : List Char) : Nat :=
  if wordLength false cs == 0 then 0
  else (cs.takeWhile fun c ↦ isWordPart c || c == '-').length

/-- Reads a name in markup. -/
def markupName (kind : String) : Reader Unit := do
  let n := markupNameLength (← get).rest
  check (n != 0)
  leaf kind n

/-- Reads a value in braces, without going on to the next token. -/
def markupValue : Reader Unit := node "jsx_expression" do
  token openBrace
  if ← sees "..." then spreadable parse
  else if !(← sees closeBrace) then parse .expressions
  rawToken closeBrace

/-- Reads the value of an attribute. -/
def attributeValue : Reader Unit := do
  if ← seesString then
    match attributeLength? (← front) (← get).rest.tail with
    | some n => leaf "string" (n + 1)
    | none => failure
  else if ← sees openBrace then
    markupValue parse
    settle
  else
    parse .element
    settle

/-- Reads an attribute. -/
def markupAttribute : Reader Unit := do
  if ← sees openBrace then
    markupValue parse
    settle
  else node "jsx_attribute" do
    markupName "property_identifier"
    if ← token? ":" then markupName "property_identifier"
    if ← token? "=" then attributeValue parse

/-- Reads the name of an element. -/
def elementName : Reader Unit := do
  markupName "identifier"
  if ← sees ":" then wrap "jsx_namespace_name" "namespace" do
    anyToken
    markupName "identifier"
  else many do
    if ← sees "." then
      wrap "member_expression" "object" do
        anyToken
        field "property" (word "property_identifier")
      return true
    else return false

/-- Reads the bracket that closes a tag, without going on to the next token. -/
def closeTag : Reader Unit := do
  check ((← front) == '>')
  raw ">" false 1

/-- Reads an opening tag up to its closing bracket; tells whether the element is complete. -/
def openingTag : Reader Bool := do
  token "<"
  if (← front) == '>' then
    closeTag
    return false
  field "name" elementName
  if (← get).dialect.types then typeArguments? parse
  many do
    if (← seesWord) || (← sees openBrace) then
      markupAttribute parse
      return true
    else return false
  let complete ← token? "/"
  closeTag
  return complete

/-- Reads a closing tag, without going on to the next token. -/
def closingTag : Reader Unit := node "jsx_closing_element" do
  token "<"
  token "/"
  if (← front) != '>' then field "name" elementName
  closeTag

/-- Reads the children of an element and its closing tag. -/
def markupChildren : Reader Unit := many do
  match markupText? (← get).rest with
  | none => failure
  | some n =>
    if n != 0 then raw "jsx_text" true n
    settle
    if ← sees openBrace then
      markupValue parse
      return true
    else if ← behind (sees "/") then
      closingTag
      return false
    else
      parse .element
      return true

/-- Reads an element, without going on to the next token. -/
def readElement : Reader Unit := do
  let outer := (← get).done
  modify fun s ↦ { s with done := [] }
  let complete ← openingTag parse
  let kind := if complete then "jsx_self_closing_element" else "jsx_opening_element"
  modify fun s ↦ { s with done := [gather kind s.offset s.done] }
  if !complete then
    markupChildren parse
    modify fun s ↦ { s with done := [gather "jsx_element" s.offset s.done] }
  modify fun s ↦ { s with done := s.done ++ outer }

end RepoSurvey.Script
