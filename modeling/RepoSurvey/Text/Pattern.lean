import RepoSurvey.Text.Basic

/-!
# Patterns of text

A `Pattern` describes pieces of text. At a given place it may fit in several ways; the ways are
tried in a fixed order, and `Pattern.fit` takes the first after which the rest of the demand is met.
Of two alternatives the left one comes first, and a repetition prefers more over less unless it is
`lazy`. A pattern holds one group, whose text is what a match yields.

`Pattern.captures` goes through a text from left to right. Matches do not overlap: the search goes
on behind the last character of a match.
-/

namespace RepoSurvey.Text

/-- A description of pieces of text. -/
inductive Pattern where
  /-- The empty text. -/
  | empty
  /-- A given text. -/
  | literal (text : List Char)
  /-- One character of a class. -/
  | one (accepts : Char → Bool)
  /-- Any number of characters of a class, as many as possible or, if `lazy`, as few. -/
  | run (accepts : Char → Bool) (lazy : Bool)
  /-- One piece behind the other. -/
  | seq (first second : Pattern)
  /-- Either piece, the first one preferred. -/
  | either (first second : Pattern)
  /-- Any number of pieces that are not empty, as many as possible. -/
  | repeated (piece : Pattern)
  /-- A piece whose text is the yield of a match. -/
  | group (piece : Pattern)
  /-- The beginning of a line. -/
  | lineStart
  /-- The end of a line. -/
  | lineEnd
  /-- A place between a word character and another character. -/
  | wordEdge
  /-- A place in front of which the piece does not fit. -/
  | notAhead (piece : Pattern)

/-- A place in a text: the character before it, the text from it on, and the group so far. -/
structure Place where
  before : Option Char
  rest : List Char
  yield : Option (List Char) := none

namespace Place

/-- Moves behind the first character. -/
def next (p : Place) (c : Char) (rest : List Char) : Place := { p with before := some c, rest }

/-- Whether a line begins here. -/
def atLineStart (p : Place) : Bool :=
  match p.before with
  | none => true
  | some c => c == '\n'

/-- Whether a line ends here. -/
def atLineEnd (p : Place) : Bool :=
  match p.rest with
  | [] => true
  | c :: _ => c == '\n'

/-- Whether exactly one of the neighbouring characters is a word character. -/
def atWordEdge (p : Place) : Bool := p.before.any isWord != p.rest.head?.any isWord

/-- The text between two places. -/
def upTo (p q : Place) : List Char := p.rest.take (p.rest.length - q.rest.length)

end Place

namespace Pattern

variable {α : Type}

/-- Moves over a given text. -/
def fitLiteral : (text : List Char) → Place → (Place → Option α) → Option α
  | [], p, demand => demand p
  | t :: text, p, demand =>
    match p.rest with
    | c :: rest => if t = c then fitLiteral text (p.next c rest) demand else none
    | [] => none

/-- Moves over as many characters as possible. -/
def fitMost (accepts : Char → Bool) (p : Place) (demand : Place → Option α) :
    (rest : List Char) → (before : Option Char) → Option α
  | [], before => demand { p with before, rest := [] }
  | c :: rest, before =>
    (if accepts c then fitMost accepts p demand rest (some c) else none) <|>
      demand { p with before, rest := c :: rest }

/-- Moves over as few characters as possible. -/
def fitLeast (accepts : Char → Bool) (p : Place) (demand : Place → Option α) :
    (rest : List Char) → (before : Option Char) → Option α
  | [], before => demand { p with before, rest := [] }
  | c :: rest, before =>
    demand { p with before, rest := c :: rest } <|>
      (if accepts c then fitLeast accepts p demand rest (some c) else none)

/-- Moves over as many pieces as possible; each must consume something, so that `fuel` counts
characters. -/
def fitRepeated (piece : Place → (Place → Option α) → Option α) :
    (fuel : Nat) → Place → (Place → Option α) → Option α
  | 0, p, demand => demand p
  | fuel + 1, p, demand =>
    (piece p fun q ↦
      if q.rest.length < p.rest.length then fitRepeated piece fuel q demand else none) <|>
    demand p

/-- The first way to fit a pattern at a place after which `demand` is met. -/
def fit : Pattern → Place → {α : Type} → (Place → Option α) → Option α
  | .empty, p, _, demand => demand p
  | .literal text, p, _, demand => fitLiteral text p demand
  | .one accepts, p, _, demand =>
    match p.rest with
    | c :: rest => if accepts c then demand (p.next c rest) else none
    | [] => none
  | .run accepts false, p, _, demand => fitMost accepts p demand p.rest p.before
  | .run accepts true, p, _, demand => fitLeast accepts p demand p.rest p.before
  | .seq first second, p, _, demand => first.fit p fun q ↦ second.fit q demand
  | .either first second, p, _, demand => first.fit p demand <|> second.fit p demand
  | .repeated piece, p, _, demand =>
    fitRepeated (fun q demand ↦ piece.fit q demand) p.rest.length p demand
  | .group piece, p, _, demand => piece.fit p fun q ↦ demand { q with yield := some (p.upTo q) }
  | .lineStart, p, _, demand => if p.atLineStart then demand p else none
  | .lineEnd, p, _, demand => if p.atLineEnd then demand p else none
  | .wordEdge, p, _, demand => if p.atWordEdge then demand p else none
  | .notAhead piece, p, _, demand => if (piece.fit p some).isSome then none else demand p

/-- The groups of the matches in a text, from left to right; `skip` counts the characters in front
that belong to the last match. -/
def capturesFrom (pattern : Pattern) :
    (skip : Nat) → (before : Option Char) → List Char → List (List Char)
  | _, _, [] => []
  | skip + 1, _, c :: rest => capturesFrom pattern skip (some c) rest
  | 0, before, c :: rest =>
    match pattern.fit { before, rest := c :: rest } some with
    | none => capturesFrom pattern 0 (some c) rest
    | some q =>
      q.yield.getD [] :: capturesFrom pattern (rest.length - q.rest.length) (some c) rest

/-- The groups of the matches in a text, from left to right. -/
def captures (pattern : Pattern) (text : List Char) : List (List Char) :=
  capturesFrom pattern 0 none text

/-! ### Building patterns -/

instance : Append Pattern := ⟨seq⟩

instance : Coe String Pattern := ⟨fun s ↦ .literal s.toList⟩

/-- A piece, or nothing. -/
def optional (piece : Pattern) : Pattern := either piece empty

/-- The first of several pieces that leads to a match. -/
def anyOf : List Pattern → Pattern
  | [] => notAhead empty
  | [piece] => piece
  | piece :: pieces => either piece (anyOf pieces)

/-- One of several texts. -/
def oneOf (texts : List String) : Pattern := anyOf (texts.map fun s ↦ literal s.toList)

/-- Any number of characters of a class. -/
def many (accepts : Char → Bool) : Pattern := run accepts false

/-- At least one character of a class. -/
def many1 (accepts : Char → Bool) : Pattern := one accepts ++ many accepts

/-- Any number of blanks. -/
def blanks : Pattern := many isBlank

/-- At least one blank. -/
def blanks1 : Pattern := many1 isBlank

/-- A word, with an edge in front of it. -/
def word (w : String) : Pattern := wordEdge ++ literal w.toList

end Pattern

end RepoSurvey.Text
