import RepoSurvey.Script.Goal

/-!
# Literals of a script

Strings, numbers, regular expressions and templates. The functions on `List Char` measure a literal
at the front of a text; a literal that is not closed or has a malformed escape has no length.
-/

namespace RepoSurvey.Script

/-! ### Strings -/

/-- Whether what follows a backslash is a proper escape. -/
def isEscape : List Char → Bool
  | 'x' :: a :: b :: _ => (Text.hexDigit? a).isSome && (Text.hexDigit? b).isSome
  | 'u' :: '{' :: cs =>
    !(cs.takeWhile fun c ↦ (Text.hexDigit? c).isSome).isEmpty &&
      (cs.dropWhile fun c ↦ (Text.hexDigit? c).isSome).head? == some '}'
  | 'u' :: a :: b :: c :: d :: _ => [a, b, c, d].all fun c ↦ (Text.hexDigit? c).isSome
  | c :: _ => c != 'x' && c != 'u'
  | [] => false

/-- The length of a string behind its opening quote, with the closing quote. -/
def stringLength? (quote : Char) : List Char → Option Nat
  | [] => none
  | '\\' :: '\r' :: '\n' :: cs => (stringLength? quote cs).map (· + 3)
  | '\\' :: c :: cs => if isEscape (c :: cs) then (stringLength? quote cs).map (· + 2) else none
  | c :: cs =>
    if c == quote then some 1
    else if c == '\n' || c == '\r' || c == '\\' then none
    else (stringLength? quote cs).map (· + 1)

/-- Reads a string. -/
def readString : Reader Unit := do
  match (← get).rest with
  | c :: cs =>
    check (c == '"' || c == '\'')
    match stringLength? c cs with
    | some n => leaf "string" (n + 1)
    | none => failure
  | [] => failure

/-- Whether a string is in front. -/
def seesString : Reader Bool := do
  let c ← front
  return c == '"' || c == '\''

/-! ### Numbers -/

/-- The characters of a run of digits, which may be grouped by underscores. -/
def digitRun (cs : List Char) : Nat := (cs.takeWhile fun c ↦ isDigit c || c == '_').length

/-- The length of an exponent. -/
def exponentLength : List Char → Nat
  | e :: cs =>
    if e == 'e' || e == 'E' then
      match cs with
      | '+' :: ds | '-' :: ds => if digitRun ds == 0 then 0 else 2 + digitRun ds
      | ds => if digitRun ds == 0 then 0 else 1 + digitRun ds
    else 0
  | [] => 0

/-- The length of a decimal number. -/
def decimalLength (cs : List Char) : Nat :=
  let whole := digitRun cs
  let point := match cs.drop whole with
    | '.' :: ds => 1 + digitRun ds
    | _ => 0
  let n := whole + point + exponentLength (cs.drop (whole + point))
  if (cs.drop n).head? == some 'n' then n + 1 else n

/-- The length of a number. -/
def numberLength (cs : List Char) : Nat :=
  match cs with
  | '0' :: base :: ds =>
    if base ∈ "xXoObB".toList then
      let n := 2 + (ds.takeWhile fun c ↦ (Text.hexDigit? c).isSome || c == '_').length
      if (cs.drop n).head? == some 'n' then n + 1 else n
    else decimalLength cs
  | _ => decimalLength cs

/-- Whether a number is in front. -/
def seesNumber : Reader Bool := do
  let cs := (← get).rest
  return isDigit (cs.headD ' ') || isFraction cs

/-- Reads a number. -/
def readNumber : Reader Unit := do
  check (← seesNumber)
  leaf "number" (numberLength (← get).rest)

/-! ### Regular expressions -/

/-- The length of a regular expression behind its opening slash, with the closing slash; inside
brackets a slash closes nothing. -/
def regexLength? : (bracket : Bool) → List Char → Option Nat
  | _, [] => none
  | bracket, '\\' :: c :: cs =>
    if isLineEnd c then none else (regexLength? bracket cs).map (· + 2)
  | bracket, c :: cs =>
    if isLineEnd c || c == '\r' then none
    else if c == '/' && !bracket then some 1
    else (regexLength? ((bracket || c == '[') && c != ']') cs).map (· + 1)

/-- Reads a regular expression with its flags. -/
def readRegex : Reader Unit := do
  match (← get).rest with
  | '/' :: cs =>
    match regexLength? false cs with
    | some n =>
      check (2 ≤ n)
      leaf "regex" (1 + n + ((cs.drop n).takeWhile Char.isLower).length)
    | none => failure
  | _ => failure

/-! ### Templates -/

/-- The length of the text of a template up to its end or to the next value in it. -/
def templateText? : List Char → Option Nat
  | [] => none
  | '\\' :: '\r' :: '\n' :: cs => (templateText? cs).map (· + 3)
  | '\\' :: c :: cs => if isEscape (c :: cs) then (templateText? cs).map (· + 2) else none
  | '$' :: '{' :: _ => some 0
  | c :: cs => if c == '\x60' then some 0 else (templateText? cs).map (· + 1)

/-- Reads a template whose values are read by `value`. -/
def readTemplate (value : Reader Unit) : Reader Unit := node "template_string" do
  check ((← front) == '\x60')
  raw "`" false 1
  many do
    match templateText? (← get).rest with
    | none => failure
    | some n =>
      if n != 0 then raw "string_fragment" true n
      if (← front) == '\x60' then
        raw "`" false 1
        settle
        return false
      node "template_substitution" do
        raw "$\x7b" false 2
        settle
        value
        rawToken closeBrace
      return true

end RepoSurvey.Script
