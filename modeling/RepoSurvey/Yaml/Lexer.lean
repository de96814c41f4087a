import RepoSurvey.Text.Utf8
import RepoSurvey.Yaml.Scalar
import RepoSurvey.Yaml.Token

/-!
# Tokens of a text

The text is read from front to back. Outside brackets the indentation of a line opens and closes
blocks. What may turn out to be a key is remembered until a colon follows on the same line, and then
the key's token is put in front of it; where a block's indentation asks for a key, a missing colon
is a fault.
-/

namespace RepoSurvey.Yaml

/-- Something that is a key if a colon follows. -/
structure PossibleKey where
  /-- The number of tokens in front of it. -/
  number : Nat
  /-- Whether it must be a key. -/
  required : Bool
  start : Cursor

/-- How far a text has been read. -/
structure Lexer where
  here : Cursor
  /-- The column of the innermost block; there is none before the first. -/
  indent : Int := -1
  /-- The columns of the blocks around it, innermost first. -/
  outer : List Int := []
  /-- How many brackets are open. -/
  depth : Nat := 0
  /-- Whether a key may begin here. -/
  keyAllowed : Bool := true
  /-- The possible keys, by the number of brackets open around them. -/
  keys : List (Nat × PossibleKey) := []
  /-- The tokens, latest first. -/
  tokens : List Token := []

namespace Lexer

/-- The greatest number of characters of a key. -/
def longestKey : Nat := 1024

/-- Adds a token. -/
def push (x : Lexer) (t : Token) : Lexer := { x with tokens := t :: x.tokens }

/-- Adds tokens behind the first `number`. -/
def insert (x : Lexer) (number : Nat) (ts : List Token) : Lexer :=
  let behind := x.tokens.length - number
  { x with tokens := x.tokens.take behind ++ ts.reverse ++ x.tokens.drop behind }

/-- Goes on behind `n` characters that make a token. -/
def take (x : Lexer) (n : Nat) (t : Token) : Lexer :=
  ({ x with here := x.here.skip n } : Lexer).push t

/-! ### Possible keys -/

/-- Whether a possible key can no longer be one. -/
def isStale (x : Lexer) (k : PossibleKey) : Bool :=
  k.start.line != x.here.line || longestKey < x.here.index - k.start.index

/-- Forgets the keys that can no longer be any. -/
def dropStale (x : Lexer) : Except Fault Lexer :=
  let (stale, fresh) := x.keys.partition fun k ↦ x.isStale k.2
  if stale.any fun k ↦ k.2.required then malformed .colonExpected
  else .ok { x with keys := fresh }

/-- Forgets the possible key between the innermost brackets. -/
def dropKey (x : Lexer) : Except Fault Lexer :=
  match x.keys.lookup x.depth with
  | some k =>
    if k.required then malformed .colonExpected
    else .ok { x with keys := x.keys.filter fun k ↦ k.1 != x.depth }
  | none => .ok x

/-- Remembers that a key may begin here. -/
def saveKey (x : Lexer) : Except Fault Lexer :=
  if x.keyAllowed then do
    let x ← x.dropKey
    let required := x.depth == 0 && x.indent == (x.here.column : Int)
    return { x with keys := (x.depth, ⟨x.tokens.length, required, x.here⟩) :: x.keys }
  else .ok x

/-! ### Indentation -/

/-- Closes blocks that are indented further than a column; `fuel` counts blocks. -/
def closeBlocks (column : Int) : (fuel : Nat) → Lexer → Lexer
  | 0, x => x
  | fuel + 1, x =>
    if column < x.indent then
      closeBlocks column fuel
        (({ x with indent := x.outer.headD (-1), outer := x.outer.tail } : Lexer).push .blockEnd)
    else x

/-- Closes blocks that are indented further than a column; between brackets there are none. -/
def unwind (x : Lexer) (column : Int) : Lexer :=
  if x.depth == 0 then closeBlocks column (x.outer.length + 1) x else x

/-- Opens a block at a column if it is indented further, and says whether it is. -/
def openBlock (x : Lexer) (column : Nat) : Lexer × Bool :=
  if x.indent < (column : Int) then
    ({ x with indent := column, outer := x.indent :: x.outer }, true)
  else (x, false)

/-! ### Between tokens -/

/-- Skips blanks, comments and line ends; `fuel` counts lines. -/
def skipGap : (fuel : Nat) → Lexer → Lexer
  | 0, x => x
  | fuel + 1, x =>
    let c := x.here.skipSpaces
    let c := if c.peek == some '#' then c.skipLine else c
    match c.lineBreak? with
    | some (_, c) =>
      skipGap fuel { x with here := c, keyAllowed := x.keyAllowed || x.depth == 0 }
    | none => { x with here := c }

/-- Skips what stands in front of the next token. -/
def toNext (x : Lexer) : Lexer :=
  let x := if x.here.index == 0 && x.here.peek == some '\uFEFF' then { x with here := x.here.next }
    else x
  x.skipGap (x.here.rest.length + 1)

/-! ### Directives, names and tags -/

/-- Reads a name that is not empty. -/
def name (c : Cursor) : Scan String :=
  let (cs, c) := c.span isNameChar
  if cs.isEmpty then malformed .badName else .ok (String.ofList cs, c)

/-- Reads decimal digits. -/
def number (c : Cursor) : Scan Nat :=
  let (cs, c) := c.span fun a ↦ (Text.asciiDigit? a).isSome
  if cs.isEmpty then malformed .badDirective
  else if Decimal.longestInt < cs.length then .error (.scalar (.longWhole cs.length))
  else .ok (Decimal.valueIn 10 (cs.filterMap Text.asciiDigit?), c)

/-- Reads the handle of a tag. -/
def handle (c : Cursor) : Scan String :=
  if c.ahead 1 == some ' ' then .ok ("!", c.next)
  else
    let (cs, rest) := c.next.span isNameChar
    if rest.peek == some '!' then .ok (String.ofList ('!' :: cs ++ ['!']), rest.next)
    else malformed .badTag

/-- The bytes of a run of percent escapes, and the place behind them. -/
def escapedBytes : (fuel : Nat) → Cursor → Scan (List UInt8)
  | 0, c => .ok ([], c)
  | fuel + 1, c =>
    match c.rest with
    | '%' :: a :: b :: _ =>
      match Text.hexDigit? a, Text.hexDigit? b with
      | some m, some n =>
        (escapedBytes fuel (c.skip 3)).map fun (bytes, c) ↦ ((m * 16 + n).toUInt8 :: bytes, c)
      | _, _ => malformed .badTag
    | '%' :: _ => malformed .badTag
    | _ => .ok ([], c)

/-- Reads the characters of a tag; `done` are those so far. -/
def tagChars : (fuel : Nat) → (done : List Char) → Cursor → Scan (List Char)
  | 0, done, c => .ok (done, c)
  | fuel + 1, done, c =>
    match c.peek with
    | none => .ok (done, c)
    | some a =>
      if a == '%' then
        match escapedBytes (c.rest.length + 1) c with
        | .error e => .error e
        | .ok (bytes, c) =>
          match Text.decode? bytes with
          | some cs => tagChars fuel (cs.reverse ++ done) c
          | none => malformed .badTag
      else if isTagChar a then tagChars fuel (a :: done) c.next
      else .ok (done, c)

/-- Reads a tag, or a part of one, that is not empty. -/
def tagText (c : Cursor) : Scan String :=
  match tagChars (c.rest.length + 1) [] c with
  | .error e => .error e
  | .ok (cs, rest) =>
    if rest.index == c.index then malformed .badTag else .ok (String.ofList cs.reverse, rest)

/-- Reads what follows the name of a directive. -/
def directiveValue (directive : String) (c : Cursor) : Except Fault (Token × Cursor) := do
  if directive = "YAML" then
    let (major, c) ← number c.skipSpaces
    if c.peek != some '.' then malformed .badDirective
    let (_, c) ← number c.next
    if isStop c.peek then return (.versionDirective major, c) else malformed .badDirective
  else if directive = "TAG" then
    let c := c.skipSpaces
    if c.peek != some '!' then malformed .badDirective
    let (handle, c) ← handle c
    if c.peek != some ' ' then malformed .badDirective
    let (front, c) ← tagText c.skipSpaces
    if isStop c.peek then return (.tagDirective handle front, c) else malformed .badDirective
  else return (.otherDirective, c.skipLine)

/-- Reads a directive. -/
def directive (c : Cursor) : Except Fault (Token × Cursor) := do
  let (directive, c) ← name c.next
  if !isStop c.peek then malformed .badDirective
  let (token, c) ← directiveValue directive c
  match c.endLine? with
  | some c => return (token, c)
  | none => malformed .badDirective

/-- The characters that may follow a name. -/
def nameEnds : List Char := "?:,]\x7d%@\x60".toList

/-- Reads the name of an anchor or of an alias behind its mark. -/
def anchorName (c : Cursor) : Except Fault (String × Cursor) := do
  let (n, c) ← name c.next
  if isGap c.peek || (c.peek.map nameEnds.contains).getD false then return (n, c)
  else malformed .badName

/-- Whether a tag has a handle of its own: a second mark in the same word. -/
def hasHandle (c : Cursor) : Bool :=
  (c.next.rest.takeWhile fun a ↦ !isStop (some a)).contains '!'

/-- Reads a tag. -/
def writtenTag (c : Cursor) : Except Fault (WrittenTag × Cursor) := do
  let (tag, c) ←
    if c.ahead 1 == some '<' then do
      let (tag, c) ← tagText (c.skip 2)
      if c.peek != some '>' then malformed .badTag
      pure (WrittenTag.whole tag, c.next)
    else if isGap (c.ahead 1) then pure (WrittenTag.whole "!", c.next)
    else do
      let (handle, c) ← if hasHandle c then handle c else pure ("!", c.next)
      let (rest, c) ← tagText c
      pure (WrittenTag.short handle rest, c)
  if isStop c.peek then return (tag, c) else malformed .badTag

/-! ### One token -/

/-- Begins something at the outermost level: all blocks end. -/
def atOutermost (x : Lexer) : Except Fault Lexer := do
  let x ← (x.unwind (-1)).dropKey
  return { x with keyAllowed := false }

/-- Reads an opening bracket. -/
def openBracket (x : Lexer) (t : Token) : Except Fault Lexer := do
  let x ← x.saveKey
  return ({ x with depth := x.depth + 1, keyAllowed := true } : Lexer).take 1 t

/-- Reads a closing bracket. -/
def closeBracket (x : Lexer) (t : Token) : Except Fault Lexer := do
  let x ← x.dropKey
  if x.depth == 0 then malformed .strayBracket
  else return ({ x with depth := x.depth - 1, keyAllowed := false } : Lexer).take 1 t

/-- Reads the comma between brackets. -/
def separator (x : Lexer) : Except Fault Lexer := do
  let x ← ({ x with keyAllowed := true } : Lexer).dropKey
  return x.take 1 .flowSeparator

/-- Opens a block for a mark at this place, which must be allowed. -/
def openAt (x : Lexer) (t : Token) (problem : Problem) : Except Fault Lexer :=
  if x.depth != 0 then .ok x
  else if x.keyAllowed then
    let (x, opened) := x.openBlock x.here.column
    .ok (if opened then x.push t else x)
  else malformed problem

/-- Reads the mark of an item of a block. -/
def blockItem (x : Lexer) : Except Fault Lexer := do
  let x ← x.openAt .blockListStart .itemNotAllowed
  let x ← ({ x with keyAllowed := true } : Lexer).dropKey
  return x.take 1 .blockItem

/-- Reads the mark of a key. -/
def keyMark (x : Lexer) : Except Fault Lexer := do
  let x ← x.openAt .blockMapStart .keyNotAllowed
  let x ← ({ x with keyAllowed := x.depth == 0 } : Lexer).dropKey
  return x.take 1 .key

/-- Reads the colon in front of a value. -/
def valueMark (x : Lexer) : Except Fault Lexer := do
  match x.keys.lookup x.depth with
  | some k =>
    let x := { x with keys := x.keys.filter fun k ↦ k.1 != x.depth, keyAllowed := false }
    let (x, opened) := if x.depth == 0 then x.openBlock k.start.column else (x, false)
    return (x.insert k.number ((if opened then [.blockMapStart] else []) ++ [.key])).take 1 .value
  | none =>
    let x ← x.openAt .blockMapStart .valueNotAllowed
    let x ← ({ x with keyAllowed := x.depth == 0 } : Lexer).dropKey
    return x.take 1 .value

/-- Reads something that may be a key. -/
def keyed (x : Lexer) (read : Cursor → Except Fault (Token × Cursor)) : Except Fault Lexer := do
  let x ← x.saveKey
  let (t, c) ← read x.here
  return ({ x with here := c, keyAllowed := false } : Lexer).push t

/-- Reads a block scalar. -/
def block (x : Lexer) (folded : Bool) : Except Fault Lexer := do
  let x ← ({ x with keyAllowed := true } : Lexer).dropKey
  let (text, c) ← blockScalar folded x.indent x.here.next
  return ({ x with here := c } : Lexer).push (.scalar text false)

/-- Reads a plain scalar. -/
def plain (x : Lexer) : Except Fault Lexer := do
  let x ← x.saveKey
  let (text, newLine, c) := plainScalar (x.depth != 0) x.indent x.here
  return ({ x with here := c, keyAllowed := newLine } : Lexer).push (.scalar text true)

/-- The characters with which no plain scalar begins, unless something follows some of them. -/
def indicators : List Char := "-?:,[]\x7b\x7d#&*!|>\x27\"%@\x60".toList

/-- Whether a plain scalar begins with a character. -/
def beginsPlain (x : Lexer) (a : Char) : Bool :=
  (!isGap (some a) && !indicators.contains a) ||
  (!isGap (x.here.ahead 1) && (a == '-' || (x.depth == 0 && (a == '?' || a == ':'))))

/-- Whether a mark stands here that a gap must follow, unless it stands between brackets. -/
def marks (x : Lexer) : Bool := x.depth != 0 || isGap (x.here.ahead 1)

/-- Reads the token that begins with a character. -/
def token (x : Lexer) (a : Char) : Except Fault Lexer := do
  let c := x.here
  if a == '%' && c.column == 0 then
    let x ← x.atOutermost
    let (t, c) ← directive x.here
    return ({ x with here := c } : Lexer).push t
  else if c.column == 0 && c.isMark '-' then return (← x.atOutermost).take 3 .documentStart
  else if c.column == 0 && c.isMark '.' then return (← x.atOutermost).take 3 .documentEnd
  else if a == '[' then x.openBracket .flowListStart
  else if a == '\x7b' then x.openBracket .flowMapStart
  else if a == ']' then x.closeBracket .flowListEnd
  else if a == '\x7d' then x.closeBracket .flowMapEnd
  else if a == ',' then x.separator
  else if a == '-' && isGap (c.ahead 1) then x.blockItem
  else if a == '?' && x.marks then x.keyMark
  else if a == ':' && x.marks then x.valueMark
  else if a == '*' then x.keyed fun c ↦ (anchorName c).map fun (n, c) ↦ (.reference n, c)
  else if a == '&' then x.keyed fun c ↦ (anchorName c).map fun (n, c) ↦ (.anchor n, c)
  else if a == '!' then x.keyed fun c ↦ (writtenTag c).map fun (t, c) ↦ (.tag t, c)
  else if a == '|' && x.depth == 0 then x.block false
  else if a == '>' && x.depth == 0 then x.block true
  else if a == '\x27' || a == '"' then
    x.keyed fun c ↦ (quotedScalar a c).map fun (s, c) ↦ (.scalar s false, c)
  else if x.beginsPlain a then x.plain
  else malformed .strayCharacter

/-- Reads all tokens; `fuel` counts characters. -/
def run : (fuel : Nat) → Lexer → Except Fault Lexer
  | 0, x => .ok x
  | fuel + 1, x => do
    let x ← x.toNext.dropStale
    let x := x.unwind x.here.column
    match x.here.peek with
    | none => x.atOutermost
    | some a => run fuel (← x.token a)

end Lexer

/-- The tokens of a text, in order. -/
def tokens (text : List Char) : Except Fault (List Token) :=
  if text.all isDocumentChar then
    (Lexer.run (text.length + 1) { here := { rest := text } }).map fun x ↦ x.tokens.reverse
  else malformed .unprintable

end RepoSurvey.Yaml
