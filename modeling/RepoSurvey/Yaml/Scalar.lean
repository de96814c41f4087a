import RepoSurvey.Yaml.Cursor

/-!
# Scalars in a text

The three ways to write a scalar: between quotes, plain, and as an indented block. In all of them a
line end inside the scalar is folded: one becomes a space, and of several one is dropped. Blocks can
keep their line ends instead.

The text of a scalar is collected latest character first. The recursions count down `fuel`; the
length of the rest of the text is always enough.
-/

namespace RepoSurvey.Yaml

/-- What is read, and the place behind it. -/
abbrev Scan (α : Type) := Except Fault (α × Cursor)

/-- A fault for a text that is malformed. -/
def malformed {α : Type} (problem : Problem) : Except Fault α := .error (.malformed problem)

/-- What a line end and the empty lines behind it leave in a folded scalar. -/
def foldBreaks (lineBreak : Char) (breaks : List Char) : List Char :=
  if lineBreak != '\n' then lineBreak :: breaks
  else if breaks.isEmpty then [' '] else breaks

/-! ### Quoted scalars -/

/-- The escapes of one character. -/
def escapes : List (Char × Char) :=
  [('0', '\x00'), ('a', '\x07'), ('b', '\x08'), ('t', '\t'), ('\t', '\t'), ('n', '\n'),
    ('v', '\x0b'), ('f', '\x0c'), ('r', '\r'), ('e', '\x1b'), (' ', ' '), ('"', '"'),
    ('\\', '\\'), ('/', '/'), ('N', '\x85'), ('_', '\xa0'), ('L', '\u2028'), ('P', '\u2029')]

/-- The number of hexadecimal digits behind an escape of a code point. -/
def escapeWidth? (c : Char) : Option Nat :=
  if c == 'x' then some 2 else if c == 'u' then some 4 else if c == 'U' then some 8 else none

/-- The empty lines from here on, and the place of the first character behind them and the blanks in
front of it. -/
def emptyLines : (fuel : Nat) → (c : Cursor) → Scan (List Char)
  | 0, c => .ok ([], c)
  | fuel + 1, c =>
    if c.isDocumentMark then malformed .markInScalar
    else
      let c := (c.span fun a ↦ a == ' ' || a == '\t').2
      match c.lineBreak? with
      | some (b, c) => (emptyLines fuel c).map fun (bs, c) ↦ (b :: bs, c)
      | none => .ok ([], c)

/-- Reads the digits of an escape of a code point. -/
def codePoint (width : Nat) (c : Cursor) : Scan Char :=
  let digits := (c.rest.take width).filterMap Text.hexDigit?
  if digits.length < width then malformed .badEscape
  else
    let n := Decimal.valueIn 16 digits
    if 0x110000 ≤ n then .error (.scalar (.codePoint n))
    else .ok (Char.ofNat n, c.skip width)

/-- Reads the text behind a backslash. -/
def escape (c : Cursor) : Scan (List Char) :=
  match c.peek with
  | none => malformed .badEscape
  | some e =>
    match escapes.lookup e, escapeWidth? e, c.lineBreak? with
    | some a, _, _ => .ok ([a], c.next)
    | none, some width, _ => (codePoint width c.next).map fun (a, c) ↦ ([a], c)
    | none, none, some (_, c) => emptyLines c.rest.length c
    | none, none, none => malformed .badEscape

/-- Reads the blanks and the line ends between the words of a quoted scalar. -/
def quotedGap (c : Cursor) : Scan (List Char) :=
  let (blanks, c) := c.span fun a ↦ a == ' ' || a == '\t'
  match c.lineBreak? with
  | some (b, c) => (emptyLines (c.rest.length + 1) c).map fun (bs, c) ↦ (foldBreaks b bs, c)
  | none => if c.peek.isNone then malformed .unterminatedScalar else .ok (blanks, c)

/-- Reads a quoted scalar from behind its opening quote; `done` is its text so far. -/
def quotedFrom (quote : Char) : (fuel : Nat) → (done : List Char) → Cursor → Scan String
  | 0, _, _ => malformed .unterminatedScalar
  | fuel + 1, done, c =>
    match c.peek with
    | none => malformed .unterminatedScalar
    | some a =>
      if a == quote then
        if quote == '\x27' && c.ahead 1 == some quote then
          quotedFrom quote fuel (quote :: done) (c.skip 2)
        else .ok (String.ofList done.reverse, c.next)
      else if a == '\\' && quote == '"' then
        match escape c.next with
        | .error e => .error e
        | .ok (text, c) => quotedFrom quote fuel (text.reverse ++ done) c
      else if isGap (some a) then
        match quotedGap c with
        | .error e => .error e
        | .ok (text, c) => quotedFrom quote fuel (text.reverse ++ done) c
      else quotedFrom quote fuel (a :: done) c.next

/-- Reads a quoted scalar. -/
def quotedScalar (quote : Char) (c : Cursor) : Scan String :=
  quotedFrom quote (c.rest.length + 1) [] c.next

/-! ### Plain scalars -/

/-- The characters that end a plain scalar between brackets. -/
def flowMarks : List Char := ",?[]\x7b\x7d".toList

/-- Whether a plain scalar ends at a place. -/
def plainEnds (inFlow : Bool) (c : Cursor) : Bool :=
  match c.peek with
  | none => true
  | some a =>
    isGap (some a) ||
    (a == ':' && (isGap (c.ahead 1) ||
      (inFlow && ((c.ahead 1).map fun b ↦ ",[]\x7b\x7d".toList.contains b).getD false))) ||
    (inFlow && flowMarks.contains a)

/-- Reads the characters of a plain scalar up to the next blank; `done` is its text so far. -/
def plainWord (inFlow : Bool) : (fuel : Nat) → (done : List Char) → Cursor → List Char × Cursor
  | 0, done, c => (done, c)
  | fuel + 1, done, c =>
    match c.peek with
    | none => (done, c)
    | some a => if plainEnds inFlow c then (done, c) else plainWord inFlow fuel (a :: done) c.next

/-- The empty lines from here on, for a plain scalar; nothing if a document's mark stands there. -/
def plainBreaks : (fuel : Nat) → Cursor → Option (List Char) × Cursor
  | 0, c => (some [], c)
  | fuel + 1, c =>
    if c.isDocumentMark then (none, c)
    else
      let c := c.skipSpaces
      match c.lineBreak? with
      | some (b, c) =>
        let (bs, c) := plainBreaks fuel c
        (bs.map (b :: ·), c)
      | none => (some [], c)

/-- What stands between two words of a plain scalar, whether a line ends there, and the place behind
it. No text means that the scalar has ended. -/
def plainGap (c : Cursor) : List Char × Bool × Cursor :=
  let (blanks, c) := c.span (· == ' ')
  match c.lineBreak? with
  | some (b, c) =>
    match plainBreaks (c.rest.length + 1) c with
    | (some bs, c) => (foldBreaks b bs, true, c)
    | (none, c) => ([], true, c)
  | none => (blanks, false, c)

/-- Reads a plain scalar; `gap` is what stands in front of the next word, and `newLine` whether a
line has ended since the last word. The answer says so of the end of the scalar. -/
def plainFrom (inFlow : Bool) (indent : Int) :
    (fuel : Nat) → (done gap : List Char) → (newLine : Bool) → Cursor → String × Bool × Cursor
  | 0, done, _, newLine, c => (String.ofList done.reverse, newLine, c)
  | fuel + 1, done, gap, newLine, c =>
    if c.peek == some '#' || plainEnds inFlow c then (String.ofList done.reverse, newLine, c)
    else
      let (done, c) := plainWord inFlow c.rest.length (gap.reverse ++ done) c
      let (gap, newLine, c) := plainGap c
      if gap.isEmpty || c.peek == some '#' || (!inFlow && (c.column : Int) < indent) then
        (String.ofList done.reverse, newLine, c)
      else plainFrom inFlow indent fuel done gap newLine c

/-- Reads a plain scalar inside a block of the given indentation: its text, whether a line has ended
behind it, and the place behind it. -/
def plainScalar (inFlow : Bool) (indent : Int) (c : Cursor) : String × Bool × Cursor :=
  plainFrom inFlow (indent + 1) (c.rest.length + 1) [] [] false c

/-! ### Block scalars -/

/-- What happens to the line ends at the end of a block. -/
inductive Chomping where
  /-- All are dropped. -/
  | strip
  /-- One is kept. -/
  | clip
  /-- All are kept. -/
  | keep
deriving DecidableEq, Repr

/-- Reads the sign of the chomping. -/
def chompingMark (c : Cursor) : Option Chomping × Cursor :=
  match c.peek with
  | some '+' => (some .keep, c.next)
  | some '-' => (some .strip, c.next)
  | _ => (none, c)

/-- Reads the digit of the indentation, which is not zero. -/
def indentMark (c : Cursor) : Scan (Option Nat) :=
  match c.peek.bind Text.asciiDigit? with
  | none => .ok (none, c)
  | some 0 => malformed .badBlockHeader
  | some n => .ok (some n, c.next)

/-- Reads the line with which a block begins. -/
def blockHeader (c : Cursor) : Except Fault ((Chomping × Option Nat) × Cursor) := do
  let (chomping, c) := chompingMark c
  let (indent, c) ← indentMark c
  let (chomping, c) := match chomping, indent with
    | none, some _ => chompingMark c
    | chomping, _ => (chomping, c)
  if isStop c.peek then
    match c.endLine? with
    | some c => return ((chomping.getD .clip, indent), c)
    | none => malformed .badBlockHeader
  else malformed .badBlockHeader

/-- The empty lines in front of a block, the column up to which the widest of them or the first line
of text is indented, and the place of the first character. -/
def leadingLines : (fuel : Nat) → (widest : Nat) → Cursor → List Char × Nat × Cursor
  | 0, widest, c => ([], widest, c)
  | fuel + 1, widest, c =>
    let c := c.skipSpaces
    let widest := max widest c.column
    match c.lineBreak? with
    | some (b, c) =>
      let (bs, widest, c) := leadingLines fuel widest c
      (b :: bs, widest, c)
    | none => ([], widest, c)

/-- The place behind the spaces up to a column. -/
def skipIndent (indent : Nat) (c : Cursor) : Cursor :=
  c.skip (((c.rest.takeWhile (· == ' ')).take (indent - c.column)).length)

/-- The empty lines inside or behind a block, and the place behind the indentation of the next. -/
def blockBreaks (indent : Nat) : (fuel : Nat) → Cursor → List Char × Cursor
  | 0, c => ([], c)
  | fuel + 1, c =>
    let c := skipIndent indent c
    match c.lineBreak? with
    | some (b, c) =>
      let (bs, c) := blockBreaks indent fuel c
      (b :: bs, c)
    | none => ([], c)

/-- Whether a line of text of a block goes on here. -/
def inBlock (indent : Nat) (c : Cursor) : Bool := c.column == indent && c.peek.isSome

/-- Whether a line of a block begins with a blank. -/
def beginsBlank (c : Cursor) : Bool := c.peek == some ' ' || c.peek == some '\t'

/-- Reads the lines of a block; `breaks` are the empty lines in front. The answer also has the last
line end and the empty lines behind it. -/
def blockLines (folded : Bool) (indent : Nat) :
    (fuel : Nat) → (done breaks : List Char) → Cursor → List Char × List Char × List Char × Cursor
  | 0, done, breaks, c => (done, [], breaks, c)
  | fuel + 1, done, breaks, c =>
    let firstBlank := beginsBlank c
    let (line, c) := c.span fun a ↦ !isBreak a
    let done := line.reverse ++ (breaks.reverse ++ done)
    let (lineBreak, c) := match c.lineBreak? with
      | some (b, c) => ([b], c)
      | none => ([], c)
    let (breaks, c) := blockBreaks indent (c.rest.length + 1) c
    if inBlock indent c then
      let between :=
        if folded && lineBreak == ['\n'] && !firstBlank && !beginsBlank c then
          (if breaks.isEmpty then [' '] else [])
        else lineBreak
      blockLines folded indent fuel (between ++ done) breaks c
    else (done, lineBreak, breaks, c)

/-- Reads a block from behind its mark, inside a block of the given indentation. -/
def blockScalar (folded : Bool) (indent : Int) (c : Cursor) :
    Except Fault (String × Cursor) := do
  let ((chomping, step), c) ← blockHeader c
  let least := max 1 (indent + 1).toNat
  let fuel := c.rest.length + 1
  let (indent, breaks, c) := match step with
    | some n =>
      let indent := least + n - 1
      let (breaks, c) := blockBreaks indent fuel c
      (indent, breaks, c)
    | none =>
      let (breaks, widest, c) := leadingLines fuel 0 c
      (max least widest, breaks, c)
  let (done, lineBreak, breaks, c) :=
    if inBlock indent c then blockLines folded indent fuel [] breaks c
    else ([], [], breaks, c)
  let done := match chomping with
    | .strip => done
    | .clip => lineBreak ++ done
    | .keep => breaks.reverse ++ (lineBreak ++ done)
  return (String.ofList done.reverse, c)

end RepoSurvey.Yaml
