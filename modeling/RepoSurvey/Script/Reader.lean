import RepoSurvey.Code.Node
import RepoSurvey.Text.Basic

/-!
# Reading a script

The state of a reader over the source of a script, and the steps from which the grammar is built.
A `State` stands in front of a token: the space and the comments before it are skipped. A `Reader`
either fails, and then leaves no trace, or moves on and puts the nodes it has read on `done`.
`node` gathers what its body put there under a new node; `wrap` gathers the last node read as well,
which is how an operand becomes the left part of a longer expression.

Comments are kept aside. `attach` puts each into the smallest finished node around it.
-/

namespace RepoSurvey.Script

open RepoSurvey.Code

/-- What a source may contain beyond plain scripts. -/
structure Dialect where
  types : Bool
  markup : Bool
deriving DecidableEq, Repr

/-- The name of a dialect. -/
def Dialect.name (d : Dialect) : String :=
  if d.types then (if d.markup then "tsx" else "typescript") else "javascript"

/-- A place in a source, in front of a token. -/
structure State where
  dialect : Dialect
  /-- The characters from the token on. -/
  rest : List Char
  /-- The number of these characters. -/
  left : Nat
  /-- The number of bytes in front of the token. -/
  offset : Nat
  /-- The token, if it is a word or a punctuator, and otherwise the empty text. -/
  token : String := ""
  /-- Whether the token is a word. -/
  word : Bool := false
  /-- Whether a line ends between the token and the one before it. -/
  newline : Bool := false
  /-- The comments skipped so far, latest first. -/
  comments : List Node := []
  /-- The nodes read of the construct at hand, latest first. -/
  done : List Node := []

/-- A step that reads, or fails. -/
abbrev Reader := StateT State Option

/-! ### Words and punctuators -/

/-- The characters that end a line. -/
def isLineEnd (c : Char) : Bool := c == '\n' || c.toNat == 0x2028 || c.toNat == 0x2029

/-- The characters that may stand between tokens. -/
def isSpace (c : Char) : Bool :=
  (Text.isBlank c && !(0x1C ≤ c.toNat && c.toNat ≤ 0x1F)) || c.toNat == 0xFEFF ||
    c.toNat == 0x2060 || c.toNat == 0x200B

/-- The printable ASCII characters that never belong to a word. -/
def marks : List Char := ":;\x60\"'@#.,|^&<=>+-*/\\%?!~()[]\x7b\x7d".toList

/-- The characters of words. -/
def isWordPart (c : Char) : Bool := !(c.toNat ≤ 0x20 || isSpace c || marks.contains c)

/-- The number of characters of the word in front, where `braced` tells that an escape is open. -/
def wordLength : (braced : Bool) → List Char → Nat
  | _, [] => 0
  | true, c :: cs =>
    if c == '}' then 1 + wordLength false cs
    else if (Text.hexDigit? c).isSome then 1 + wordLength true cs else 0
  | false, '\\' :: 'u' :: c :: cs =>
    if c == '{' then 3 + wordLength true cs
    else if (Text.hexDigit? c).isSome then 3 + wordLength false cs else 0
  | false, c :: cs => if isWordPart c then 1 + wordLength false cs else 0

/-- The punctuators, longer ones before their beginnings. -/
def punctuators : List String :=
  [">>>=", "...", "===", "!==", "**=", "<<=", ">>=", ">>>", "&&=", "||=", "??=", "=>", "==", "!=",
    "<=", ">=", "&&", "||", "??", "?.", "++", "--", "+=", "-=", "*=", "/=", "%=", "&=", "|=", "^=",
    "<<", ">>", "**", "\x7b", "\x7d", "(", ")", "[", "]", ";", ",", "<", ">", "+", "-", "*", "/",
    "%", "&", "|", "^", "!", "~", "?", ":", "=", ".", "@", "#"]

/-- The opening brace. -/
abbrev openBrace : String := "\x7b"

/-- The closing brace. -/
abbrev closeBrace : String := "\x7d"

/-- Whether a character is an ASCII digit. -/
def isDigit (c : Char) : Bool := (Text.asciiDigit? c).isSome

/-- Whether a number begins with the point in front. -/
def isFraction : List Char → Bool
  | '.' :: c :: _ => isDigit c
  | _ => false

/-- The punctuator in front of a text: the longest that fits, except that a point before a digit
belongs to a number. -/
def punctuatorOf (cs : List Char) : String :=
  if isFraction cs then ""
  else if cs.head? == some '?' && isFraction cs.tail then "?"
  else (punctuators.find? fun p ↦ p.toList.isPrefixOf cs).getD ""

/-- The word or punctuator in front of a text, and whether it is a word. -/
def tokenOf (cs : List Char) : String × Bool :=
  match cs with
  | [] => ("", false)
  | c :: _ =>
    if isDigit c then ("", false)
    else match wordLength false cs with
      | 0 => (punctuatorOf cs, false)
      | n => (String.ofList (cs.take n), true)

/-! ### Space and comments -/

/-- Where a skip stands: between tokens, or in a comment that began at an offset. -/
inductive Gap where
  | between
  | line (start : Nat)
  | block (start : Nat)

/-- A comment that covers a range of bytes. -/
def comment (start stop : Nat) : Node := .mk "comment" true start stop none []

/-- Moves a state by one character. -/
def State.advance (s : State) (c : Char) (cs : List Char) : State :=
  { s with rest := cs, left := s.left - 1, offset := s.offset + c.utf8Size }

/-- Notes that a line has ended. -/
def State.markLine (s : State) : State := { s with newline := true }

/-- Notes a comment that ends at the state's offset. -/
def State.note (s : State) (start : Nat) : State :=
  { s with comments := comment start s.offset :: s.comments }

/-- Skips space and comments; a comment that is not closed fails. -/
def skip : Gap → State → List Char → Option State
  | .between, s, [] => some s
  | .line start, s, [] => some (s.note start)
  | .block _, _, [] => none
  | .between, s, '/' :: '/' :: cs =>
    skip (.line s.offset) ((s.advance '/' cs).advance '/' cs) cs
  | .between, s, '/' :: '*' :: cs =>
    skip (.block s.offset) ((s.advance '/' cs).advance '*' cs) cs
  | .between, s, c :: cs =>
    if isLineEnd c then skip .between (s.advance c cs).markLine cs
    else if isSpace c then skip .between (s.advance c cs) cs
    else some s
  | .line start, s, c :: cs =>
    if isLineEnd c then skip .between ((s.note start).advance c cs).markLine cs
    else if c == '\r' then skip .between ((s.note start).advance c cs) cs
    else skip (.line start) (s.advance c cs) cs
  | .block start, s, '*' :: '/' :: cs =>
    skip .between (((s.advance '*' cs).advance '/' cs).note start) cs
  | .block start, s, c :: cs =>
    skip (.block start) (if isLineEnd c then (s.advance c cs).markLine else s.advance c cs) cs

/-- Skips space and comments and looks at the token behind them. -/
def settle : Reader Unit := fun s ↦ do
  let s ← skip .between { s with newline := false } s.rest
  let (token, word) := tokenOf s.rest
  return ((), { s with token, word })

/-! ### Tokens and nodes -/

/-- Reads `n` characters as a node without children; the state then stands right behind them. -/
def raw (kind : String) (named : Bool) (n : Nat) : Reader Unit := do
  let s ← get
  let size := ((s.rest.take n).map Char.utf8Size).foldl (· + ·) 0
  let node := Node.mk kind named s.offset (s.offset + size) none []
  set { s with
    rest := s.rest.drop n, left := s.left - n, offset := s.offset + size, done := node :: s.done }

/-- Reads `n` characters as a node without children and goes on to the next token. -/
def leaf (kind : String) (n : Nat) : Reader Unit := do
  raw kind true n
  settle

/-- Whether the token in front is `t`. -/
def sees (t : String) : Reader Bool := return (← get).token == t

/-- Whether the token in front is one of several. -/
def seesAny (ts : List String) : Reader Bool := return ts.contains (← get).token

/-- Whether a word is in front. -/
def seesWord : Reader Bool := return (← get).word

/-- The character in front, and a blank at the end of the source. -/
def front : Reader Char := return (← get).rest.headD ' '

/-- Whether the source is at its end. -/
def atEnd : Reader Bool := return (← get).rest.isEmpty

/-- Fails unless a condition holds. -/
def check (b : Bool) : Reader Unit := if b then pure () else failure

/-- Reads the token in front, whatever it is. -/
def anyToken : Reader Unit := do
  let t := (← get).token
  check (t != "")
  raw t false t.length
  settle

/-- Reads the token `t`. -/
def token (t : String) : Reader Unit := do
  check (← sees t)
  anyToken

/-- Reads the token `t` if it is in front. -/
def token? (t : String) : Reader Bool := do
  if ← sees t then
    anyToken
    return true
  else return false

/-- Reads the token `t` without going on to the next one. -/
def rawToken (t : String) : Reader Unit := do
  check (← sees t)
  raw t false t.length

/-- Reads one character of a longer punctuator. -/
def split (c : Char) : Reader Unit := do
  check ((← front) == c)
  raw (String.singleton c) false 1
  settle

/-- Reads `p`, or goes back if it fails; tells whether it was read. -/
def attempt (p : Reader Unit) : Reader Bool := fun s ↦
  match p s with
  | some (_, s') => some (true, s')
  | none => some (false, s)

/-- Whether `p` reads what is in front; the place does not change. -/
def ahead (p : Reader Unit) : Reader Bool := fun s ↦ some ((p s).isSome, s)

/-- Whether a condition holds behind the token in front. -/
def behind (b : Reader Bool) : Reader Bool := fun s ↦
  match (do anyToken; b).run s with
  | some (answer, _) => some (answer, s)
  | none => some (false, s)

/-- The node that gathers children, given latest first. -/
def gather (kind : String) (offset : Nat) (done : List Node) : Node :=
  let children := done.reverse
  .mk kind true ((children.head?.map Node.start).getD offset)
    ((done.head?.map Node.stop).getD offset) none children

/-- Gathers what `body` reads under a node whose kind `body` tells. -/
def build (body : Reader String) : Reader Unit := do
  let outer := (← get).done
  modify fun s ↦ { s with done := [] }
  let kind ← body
  modify fun s ↦ { s with done := gather kind s.offset s.done :: outer }

/-- Gathers what `body` reads under a node. -/
def node (kind : String) (body : Reader Unit) : Reader Unit := build do
  body
  return kind

/-- Sets the field of the last node read. -/
def fieldLast (name : String) : Reader Unit := modify fun s ↦
  match s.done with
  | last :: outer => { s with done := last.withField name :: outer }
  | [] => s

/-- Reads `p` as the field `name`. -/
def field (name : String) (p : Reader Unit) : Reader Unit := do
  p
  fieldLast name

/-- The kind of the last node read. -/
def lastKind : Reader String := return ((← get).done.head?.map Node.kind).getD ""

/-- Gathers the last node read, as the field `name`, and what `body` reads under a node. -/
def wrap (kind name : String) (body : Reader Unit) : Reader Unit := do
  match (← get).done with
  | last :: outer =>
    modify fun s ↦ { s with done := [last.withField name] }
    body
    modify fun s ↦ { s with done := gather kind s.offset s.done :: outer }
  | [] => failure

/-- Gives the last node read another kind. -/
def rename (kind : String) : Reader Unit := modify fun s ↦
  match s.done with
  | .mk _ named start stop field children :: outer =>
    { s with done := .mk kind named start stop field children :: outer }
  | [] => s

/-! ### Repetition -/

/-- Reads `p` as long as it tells that there was something to read, at most `fuel` times. -/
def manyWith : (fuel : Nat) → (p : Reader Bool) → Reader Unit
  | 0, _ => failure
  | fuel + 1, p => do
    if ← p then manyWith fuel p else return

/-- Reads `p` as long as it tells that there was something to read. -/
def many (p : Reader Bool) : Reader Unit := do manyWith ((← get).left + 1) p

/-- Reads `p`, and again behind each comma. -/
def separated (p : Reader Unit) : Reader Unit := do
  p
  many do
    if ← token? "," then
      p
      return true
    else return false

/-- Reads `p` between commas up to `close`, which is read too; a last comma may stand alone. -/
def listUntil (close : String) (p : Reader Unit) : Reader Unit := do
  many do
    if ← sees close then return false
    p
    if ← token? "," then return true
    check (← sees close)
    return false
  token close

/-! ### Words -/

/-- The words that name no variable. -/
def reservedWords : List String :=
  ["break", "case", "catch", "class", "const", "continue", "debugger", "default", "delete", "do",
    "else", "export", "extends", "finally", "for", "function", "if", "import", "in", "instanceof",
    "new", "return", "super", "switch", "this", "throw", "try", "typeof", "var", "void", "while",
    "with", "true", "false", "null"]

/-- Whether the name of a variable is in front. -/
def seesName : Reader Bool := do
  let s ← get
  return s.word && !reservedWords.contains s.token

/-- Reads the name of a variable. -/
def name (kind : String) : Reader Unit := do
  check (← seesName)
  leaf kind (← get).token.length

/-- Reads any word. -/
def word (kind : String) : Reader Unit := do
  check (← seesWord)
  leaf kind (← get).token.length

/-- Whether a statement may end in front of the token without a semicolon. -/
def mayEnd : Reader Bool := do
  return (← get).newline || (← sees closeBrace) || (← atEnd)

/-- Reads the end of a statement. -/
def semicolon : Reader Unit := do
  if ← token? ";" then return
  check (← mayEnd)

/-! ### Comments in the finished tree -/

mutual

/-- Puts comments, in order, into the smallest nodes around them. -/
def attach (comments : List Node) : Node → Node
  | .mk kind named start stop field children =>
    .mk kind named start stop field (attachAll comments children)

/-- Puts comments, in order, between the nodes of a list and into them. -/
def attachAll (comments : List Node) : List Node → List Node
  | [] => comments
  | n :: ns =>
    let before := comments.takeWhile fun c ↦ c.stop ≤ n.start
    let others := comments.dropWhile fun c ↦ c.stop ≤ n.start
    let inside := others.takeWhile fun c ↦ c.stop ≤ n.stop
    let after := others.dropWhile fun c ↦ c.stop ≤ n.stop
    before ++ (if inside.isEmpty then n else attach inside n) :: attachAll after ns

end

end RepoSurvey.Script
