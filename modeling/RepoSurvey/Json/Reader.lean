import RepoSurvey.Decimal.Text
import RepoSurvey.Json.Basic
import RepoSurvey.Text.Basic

/-!
# Reading JSON

A reader over the characters of a text. Every reading function returns what it read together with
the text that is left, so that a fault's position is the difference of two lengths. Beyond the
standard the words `NaN`, `Infinity` and `-Infinity` are numbers, of several members with one name
the last value counts, and a control character inside a string is refused.

The recursion over nested values counts down `fuel`; the length of the text is always enough,
because each level consumes at least one character.
-/

namespace RepoSurvey.Json

/-- What a reading step yields: a value and the rest of the text, or a problem and the rest of the
text at which it lies. -/
abbrev Step (α : Type) := Except (Problem × List Char) (α × List Char)

/-- The characters that may stand between tokens. -/
def isSpace (c : Char) : Bool := c == ' ' || c == '\t' || c == '\n' || c == '\r'

/-- Drops the space in front. -/
def skipSpace (cs : List Char) : List Char := cs.dropWhile isSpace

/-! ### Strings -/

/-- The value of four hexadecimal digits. -/
def codeUnit? : List Char → Option Nat
  | [a, b, c, d] => do
    let a ← Text.hexDigit? a
    let b ← Text.hexDigit? b
    let c ← Text.hexDigit? c
    let d ← Text.hexDigit? d
    return ((a * 16 + b) * 16 + c) * 16 + d
  | _ => none

/-- The character that a one-letter escape stands for. -/
def escaped? : Char → Option Char
  | '"' => some '"'
  | '\\' => some '\\'
  | '/' => some '/'
  | 'b' => some '\x08'
  | 'f' => some '\x0c'
  | 'n' => some '\n'
  | 'r' => some '\r'
  | 't' => some '\t'
  | _ => none

/-- The low half of a surrogate pair that is written as an escape in front of a text. -/
def lowSurrogate? (cs : List Char) : Option Nat :=
  match cs with
  | '\\' :: 'u' :: a :: b :: c :: d :: _ :: _ =>
    (codeUnit? [a, b, c, d]).filter fun n ↦ 0xDC00 ≤ n && n ≤ 0xDFFF
  | _ => none

/-- Reads a string whose opening quote has been read; `start` is the text from that quote on and
`out` (reversed) what has been read. Texts have no place for half of a surrogate pair: where one is
escaped, a replacement character is read, so that strings which differ in such halves only are the
same here. -/
def readString (start : List Char) : (fuel : Nat) → (out : List Char) → List Char → Step String
  | 0, _, _ => .error (.unterminatedString, start)
  | fuel + 1, out, cs =>
    match cs with
    | [] => .error (.unterminatedString, start)
    | '"' :: rest => .ok (String.ofList out.reverse, rest)
    | '\\' :: rest =>
      match rest with
      | [] => .error (.unterminatedString, start)
      | 'u' :: digits =>
        if digits.length ≤ 4 then .error (.badCodeUnit, rest)
        else match codeUnit? (digits.take 4) with
          | none => .error (.badCodeUnit, rest)
          | some n =>
            let after := digits.drop 4
            match if 0xD800 ≤ n && n ≤ 0xDBFF then lowSurrogate? after else none with
            | some low =>
              let c := Char.ofNat (0x10000 + (n - 0xD800) * 1024 + (low - 0xDC00))
              readString start fuel (c :: out) (after.drop 6)
            | none =>
              let c := if 0xD800 ≤ n && n ≤ 0xDFFF then Char.ofNat 0xFFFD else Char.ofNat n
              readString start fuel (c :: out) after
      | e :: after =>
        match escaped? e with
        | some c => readString start fuel (c :: out) after
        | none => .error (.badEscape, cs)
    | c :: rest =>
      if c.toNat ≤ 0x1F then .error (.controlCharacter, cs)
      else readString start fuel (c :: out) rest

/-! ### Numbers -/

/-- Whether a character is an ASCII decimal digit. -/
def isDigit (c : Char) : Bool := '0' ≤ c && c ≤ '9'

/-- The value of a run of decimal digits. -/
def digitsValue (cs : List Char) : Nat := cs.foldl (fun n c ↦ n * 10 + (c.toNat - 48)) 0

/-- The longest run of digits that a whole number may have. -/
def longestInteger : Nat := 4300

/-- The digits of a fraction and the rest, if a point and at least one digit stand in front. -/
def fraction (cs : List Char) : Option (List Char × List Char) :=
  match cs with
  | '.' :: rest =>
    let digits := rest.takeWhile isDigit
    if digits.isEmpty then none else some (digits, rest.dropWhile isDigit)
  | _ => none

/-- The value of an exponent and the rest, if one stands in front. -/
def exponent (cs : List Char) : Option (Int × List Char) :=
  match cs with
  | e :: rest =>
    if e == 'e' || e == 'E' then
      let (negative, digits) := match rest with
        | '-' :: ds => (true, ds)
        | '+' :: ds => (false, ds)
        | ds => (false, ds)
      let run := digits.takeWhile isDigit
      if run.isEmpty then none
      else
        let n := Int.ofNat (digitsValue run)
        some (if negative then -n else n, digits.dropWhile isDigit)
    else none
  | [] => none

/-- Reads a number after its sign; `start` is the text from the number's first character on. -/
def readNumber (start : List Char) (negative : Bool) (cs : List Char) : Step Json :=
  let whole := match cs with
    | '0' :: _ => ['0']
    | _ => cs.takeWhile isDigit
  if whole.isEmpty then .error (.valueExpected, start)
  else
    let afterWhole := cs.drop whole.length
    let (places, afterFraction) := (fraction afterWhole).getD ([], afterWhole)
    match exponent afterFraction with
    | some (e, rest) =>
      let digits := digitsValue (whole ++ places)
      .ok (.float (Decimal.nearest negative digits (e - Int.ofNat places.length)), rest)
    | none =>
      if places.isEmpty then
        if longestInteger < whole.length then .error (.hugeInteger, start)
        else
          let n := Int.ofNat (digitsValue whole)
          .ok (.int (if negative then -n else n), afterFraction)
      else
        let digits := digitsValue (whole ++ places)
        .ok (.float (Decimal.nearest negative digits (-Int.ofNat places.length)), afterFraction)

/-! ### Values -/

/-- The words that stand for a value. -/
def constants : List (List Char × Json) :=
  [("null".toList, .null), ("true".toList, .bool true), ("false".toList, .bool false),
    ("NaN".toList, .float (0.0 / 0.0)), ("Infinity".toList, .float (1.0 / 0.0)),
    ("-Infinity".toList, .float (-1.0 / 0.0))]

/-- Reads one of the words that stand for a value. -/
def readConstant? (cs : List Char) : Option (Json × List Char) :=
  constants.findSome? fun (word, value) ↦ (Text.dropFront? word cs).map fun rest ↦ (value, rest)

/-- Reads a value that is neither an array nor an object. -/
def readScalar (cs : List Char) : Step Json :=
  match cs with
  | '"' :: rest => (readString cs (rest.length + 1) [] rest).map fun (s, rest) ↦ (.str s, rest)
  | '-' :: rest =>
    match readConstant? cs with
    | some found => .ok found
    | none => readNumber cs true rest
  | _ =>
    match readConstant? cs with
    | some found => .ok found
    | none => readNumber cs false cs

mutual

/-- Reads the value in front. -/
def readValue : (fuel : Nat) → List Char → Step Json
  | 0, cs => .error (.valueExpected, cs)
  | fuel + 1, cs =>
    match cs with
    | '[' :: rest =>
      match skipSpace rest with
      | ']' :: after => .ok (.arr [], after)
      | items => readItems fuel [] items
    | '{' :: rest =>
      match skipSpace rest with
      | '}' :: after => .ok (.obj [], after)
      | members => readMembers fuel [] members
    | _ => readScalar cs

/-- Reads the items of an array up to its end; `out` (reversed) are the items read. -/
def readItems : (fuel : Nat) → (out : List Json) → List Char → Step Json
  | 0, _, cs => .error (.valueExpected, cs)
  | fuel + 1, out, cs =>
    match readValue fuel cs with
    | .error e => .error e
    | .ok (item, rest) =>
      match skipSpace rest with
      | ']' :: after => .ok (.arr (item :: out).reverse, after)
      | ',' :: after => readItems fuel (item :: out) (skipSpace after)
      | other => .error (.commaExpected, other)

/-- Reads the members of an object up to its end; `out` are the members read. -/
def readMembers : (fuel : Nat) → (out : List (String × Json)) → List Char → Step Json
  | 0, _, cs => .error (.nameExpected, cs)
  | fuel + 1, out, cs =>
    match cs with
    | '"' :: rest =>
      match readString cs (rest.length + 1) [] rest with
      | .error e => .error e
      | .ok (name, afterName) =>
        match skipSpace afterName with
        | ':' :: afterColon =>
          match readValue fuel (skipSpace afterColon) with
          | .error e => .error e
          | .ok (value, afterValue) =>
            let out := setMember name value out
            match skipSpace afterValue with
            | '}' :: after => .ok (.obj out, after)
            | ',' :: after => readMembers fuel out (skipSpace after)
            | other => .error (.commaExpected, other)
        | other => .error (.colonExpected, other)
    | _ => .error (.nameExpected, cs)

end

/-- Reads a whole text as one JSON document. -/
def parse (cs : List Char) : Except Fault Json :=
  let fault := fun (problem : Problem) (rest : List Char) ↦
    (⟨problem, cs.length - rest.length⟩ : Fault)
  match cs with
  | c :: _ =>
    if c.toNat == 0xFEFF then .error ⟨.byteOrderMark, 0⟩
    else body fault
  | [] => body fault
where
  /-- The document after the check for a byte order mark. -/
  body (fault : Problem → List Char → Fault) : Except Fault Json :=
    match readValue (2 * cs.length + 2) (skipSpace cs) with
    | .error (problem, rest) => .error (fault problem rest)
    | .ok (value, rest) =>
      match skipSpace rest with
      | [] => .ok value
      | extra => .error (fault .extraData extra)

end RepoSurvey.Json
