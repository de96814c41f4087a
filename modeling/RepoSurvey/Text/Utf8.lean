import RepoSurvey.Text.Basic

/-!
# Text and bytes

Text is stored as UTF-8. `decode?` refuses bytes that are not well formed, `decodeLossy` drops them.
`readLines` makes every line end of a stored text a line feed.
-/

namespace RepoSurvey.Text

/-- The character that a list of bytes begins with, and the number of its bytes. -/
def leadingChar? : List UInt8 → Option (Char × Nat)
  | [] => none
  | a :: rest =>
    let a := a.toNat
    let part := fun (i : Nat) ↦
      match rest[i]? with
      | some b => if 0x80 ≤ b.toNat && b.toNat < 0xC0 then some (b.toNat - 0x80) else none
      | none => none
    let scalar := fun (n least count : Nat) ↦
      if h : n.isValidChar then
        if least ≤ n then some (Char.ofNatAux n h, count) else none
      else none
    if a < 0x80 then scalar a 0 1
    else if a < 0xC0 then none
    else if a < 0xE0 then do scalar ((a - 0xC0) * 64 + (← part 0)) 0x80 2
    else if a < 0xF0 then do scalar (((a - 0xE0) * 64 + (← part 0)) * 64 + (← part 1)) 0x800 3
    else if a < 0xF8 then do
      scalar ((((a - 0xF0) * 64 + (← part 0)) * 64 + (← part 1)) * 64 + (← part 2)) 0x10000 4
    else none

/-- The characters of bytes; what belongs to no character is dropped; `fuel` counts bytes. -/
def decodeWith : (fuel : Nat) → List UInt8 → List Char
  | 0, _ => []
  | fuel + 1, bytes =>
    match bytes with
    | [] => []
    | _ :: rest =>
      match leadingChar? bytes with
      | some (c, n) => c :: decodeWith fuel (bytes.drop n)
      | none => decodeWith fuel rest

/-- The characters of bytes; what belongs to no character is dropped. -/
def decodeLossy (bytes : List UInt8) : List Char := decodeWith bytes.length bytes

/-- The characters of bytes that are well formed, in front of `done`, latest first; `fuel` counts
bytes. -/
def decodeStrictWith : (fuel : Nat) → (done : List Char) → List UInt8 → Option (List Char)
  | _, done, [] => some done.reverse
  | 0, _, _ :: _ => none
  | fuel + 1, done, b :: bytes =>
    match leadingChar? (b :: bytes) with
    | some (c, n) => decodeStrictWith fuel (c :: done) ((b :: bytes).drop n)
    | none => none

/-- The characters of bytes, if these are well formed. -/
def decode? (bytes : List UInt8) : Option (List Char) := decodeStrictWith bytes.length [] bytes

/-! ### What is wrong with bytes -/

/-- Why bytes are not the beginning of a character. -/
inductive ByteProblem where
  | badStart
  | badContinuation
  | unexpectedEnd
deriving DecidableEq, Repr

/-- The wording of a problem. -/
def ByteProblem.message : ByteProblem → String
  | .badStart => "invalid start byte"
  | .badContinuation => "invalid continuation byte"
  | .unexpectedEnd => "unexpected end of data"

/-- Bytes that belong to no character. -/
structure ByteFault where
  /-- The number of bytes in front. -/
  position : Nat
  bytes : List UInt8
  problem : ByteProblem
deriving DecidableEq, Repr

/-- The closed range of the second byte of a character, by its first byte, and the number of its
bytes. -/
def continuation? (first : Nat) : Option (Nat × Nat × Nat) :=
  if 0xC2 ≤ first && first ≤ 0xDF then some (0x80, 0xBF, 2)
  else if first == 0xE0 then some (0xA0, 0xBF, 3)
  else if first == 0xED then some (0x80, 0x9F, 3)
  else if 0xE1 ≤ first && first ≤ 0xEF then some (0x80, 0xBF, 3)
  else if first == 0xF0 then some (0x90, 0xBF, 4)
  else if first == 0xF4 then some (0x80, 0x8F, 4)
  else if 0xF1 ≤ first && first ≤ 0xF3 then some (0x80, 0xBF, 4)
  else none

/-- What is wrong with bytes that do not begin with a character: their number and the problem. -/
def leadingFault (bytes : List UInt8) : Nat × ByteProblem :=
  match bytes with
  | [] => (0, .unexpectedEnd)
  | first :: rest =>
    match continuation? first.toNat with
    | none => (1, .badStart)
    | some (low, high, count) =>
      let good := match rest with
        | second :: others =>
          if low ≤ second.toNat && second.toNat ≤ high then
            1 + (others.takeWhile fun b ↦ 0x80 ≤ b.toNat && b.toNat ≤ 0xBF).length
          else 0
        | [] => 0
      if good + 1 < count && good < rest.length then (good + 1, .badContinuation)
      else (good + 1, .unexpectedEnd)

/-- The first bytes that belong to no character; `position` bytes stand in front, and `fuel` counts
bytes. -/
def byteFaultFrom : (fuel position : Nat) → List UInt8 → Option ByteFault
  | 0, _, _ => none
  | fuel + 1, position, bytes =>
    if bytes.isEmpty then none
    else match leadingChar? bytes with
      | some (_, n) => byteFaultFrom fuel (position + n) (bytes.drop n)
      | none =>
        let (count, problem) := leadingFault bytes
        some ⟨position, bytes.take count, problem⟩

/-- The first bytes that belong to no character. -/
def byteFault? (bytes : List UInt8) : Option ByteFault := byteFaultFrom bytes.length 0 bytes

/-- A byte in two hexadecimal digits. -/
def hexByte (b : UInt8) : String :=
  let digits := Nat.toDigits 16 b.toNat
  String.ofList (List.replicate (2 - digits.length) '0' ++ digits)

/-- The wording of a fault. -/
def ByteFault.message (f : ByteFault) : String :=
  let place := match f.bytes with
    | [b] => s!"byte 0x{hexByte b} in position {f.position}"
    | bytes => s!"bytes in position {f.position}-{f.position + bytes.length - 1}"
  "'utf-8' codec can't decode " ++ place ++ ": " ++ f.problem.message

/-- The bytes of a text. -/
def encode (s : String) : List UInt8 := s.toUTF8.toList

/-- A text with a line feed for each line end `\r\n`, `\r` or `\n`. -/
def readLines : List Char → List Char
  | [] => []
  | '\r' :: '\n' :: cs => '\n' :: readLines cs
  | '\r' :: cs => '\n' :: readLines cs
  | c :: cs => c :: readLines cs

end RepoSurvey.Text
