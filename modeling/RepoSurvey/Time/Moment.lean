import RepoSurvey.Text.Basic
import RepoSurvey.Time.Calendar

/-!
# Moments

A `Moment` is a date, a time of day and an offset from universal time. Moments are compared by the
instant that they mean. `Moment.parse?` reads the extended and the basic form of ISO 8601, calendar
and week dates, with any one character between date and time; a missing offset means universal time.
-/

namespace RepoSurvey.Time

open RepoSurvey.Text

/-- A date, a time of day and an offset. -/
structure Moment where
  date : Date
  hour : Nat := 0
  minute : Nat := 0
  second : Nat := 0
  micro : Nat := 0
  /-- The offset from universal time, in microseconds. -/
  offset : Int := 0
deriving DecidableEq, Repr

/-- Microseconds of a second. -/
abbrev microsPerSecond : Nat := 1000000

/-- Microseconds of a day. -/
abbrev microsPerDay : Nat := 86400 * microsPerSecond

namespace Moment

/-- Microseconds since midnight, in local time. -/
def timeOfDay (m : Moment) : Nat :=
  ((m.hour * 60 + m.minute) * 60 + m.second) * microsPerSecond + m.micro

/-- The instant, in microseconds. -/
def instant (m : Moment) : Int := (m.date.ordinal * microsPerDay + m.timeOfDay : Nat) - m.offset

/-- Whether there is such a moment. -/
def isValid (m : Moment) : Bool :=
  m.date.isValid && m.hour ≤ 23 && m.minute ≤ 59 && m.second ≤ 59 && m.micro < microsPerSecond &&
    m.offset.natAbs < microsPerDay

end Moment

/-! ### Reading -/

/-- The value of exactly `n` digits in front of a text, and the rest. -/
def digits? : (n : Nat) → List Char → (value : Nat) → Option (Nat × List Char)
  | 0, cs, value => some (value, cs)
  | n + 1, c :: cs, value => do digits? n cs (value * 10 + (← asciiDigit? c))
  | _ + 1, [], _ => none

/-- Reads exactly `n` digits. -/
def number? (n : Nat) (cs : List Char) : Option (Nat × List Char) := digits? n cs 0

/-- Whether a character is a digit. -/
def isDigit (c : Char) : Bool := (asciiDigit? c).isSome

/-- The number of characters that the date in front of a text takes. Where the year is followed by a
week, the number of digits behind it tells whether a day of the week is among them. -/
def dateLength (cs : List Char) : Nat :=
  let at' := fun n ↦ (cs[n]?).getD ' '
  if cs.length = 7 then 7
  else if at' 4 = '-' then
    if at' 5 = 'W' then
      if at' 8 = '-' then (if 10 < cs.length ∧ isDigit (at' 10) then 8 else 10) else 8
    else 10
  else if at' 4 = 'W' then
    let stop := 7 + ((cs.drop 7).takeWhile isDigit).length
    if stop < 9 then stop else if stop % 2 = 0 then 7 else 8
  else 8

/-- Drops a hyphen if there must be one. -/
def hyphen? (needed : Bool) (cs : List Char) : Option (List Char) :=
  if needed then dropFront? ['-'] cs else some cs

/-- Reads a week and perhaps a day of it. -/
def weekDate? (year : Nat) (hyphens : Bool) (cs : List Char) : Option Date := do
  let (week, cs) ← number? 2 cs
  let day ← if cs.isEmpty then pure 1 else do
    let (day, _) ← number? 1 (← hyphen? hyphens cs)
    pure day
  return Date.ofOrdinal (← weekOrdinal? year week day)

/-- Reads a date that takes the whole text. -/
def date? (cs : List Char) : Option Date := do
  let (year, cs) ← number? 4 cs
  let hyphens := cs.head? == some '-'
  let cs := if hyphens then cs.tail else cs
  match cs with
  | 'W' :: cs => weekDate? year hyphens cs
  | cs =>
    let (month, cs) ← number? 2 cs
    let (day, cs) ← number? 2 (← hyphen? hyphens cs)
    if cs.isEmpty then some ⟨year, month, day⟩ else none

/-- A time of day as it is read: hour, minute, second and microsecond. -/
structure Clock where
  hour : Nat := 0
  minute : Nat := 0
  second : Nat := 0
  micro : Nat := 0
deriving DecidableEq, Repr

/-- Reads a fraction of a second from `cs`, up to six digits of it; further digits do not count.
Tells whether something follows, in `cs` or in `after`, where a null character ends the text. -/
def fraction? (cs after : List Char) : Option (Nat × Bool) := do
  let n := min cs.length 6
  let (value, rest) ← number? n cs
  let follows := !(((rest ++ after).dropWhile isDigit).takeWhile (· != '\x00')).isEmpty
  return (value * Nat.pow 10 (6 - n), follows)

/-- Sets the `i`-th part of a clock. -/
def Clock.setPart (k : Clock) : (i value : Nat) → Clock
  | 0, v => { k with hour := v }
  | 1, v => { k with minute := v }
  | _, v => { k with second := v }

/-- Reads the parts of a clock from the `i`-th on, out of `cs` with `after` behind it; tells whether
something follows. `colons` says whether colons stand between the parts. A single byte at the end of
`cs` is passed over, and a null character there is the end of the text. -/
def clockFrom (after : List Char) :
    (left i : Nat) → (colons : Bool) → Clock → List Char → Option (Clock × Bool)
  | 0, _, _, k, cs => do
    let (micro, follows) ← fraction? cs after
    return ({ k with micro }, follows)
  | left + 1, i, colons, k, cs => do
    let (value, cs) ← number? 2 cs
    let k := k.setPart i value
    match cs with
    | [] => return (k, !after.isEmpty)
    | c :: rest =>
      let colons := if i = 0 then c == ':' else colons
      if rest.isEmpty then
        if c.utf8Size = 1 then return (k, c != '\x00') else none
      else if colons && c == ':' then clockFrom after left (i + 1) colons k rest
      else if c == '.' || c == ',' then
        let (micro, follows) ← fraction? rest after
        return ({ k with micro }, follows)
      else if colons then none
      else clockFrom after left (i + 1) colons k cs

/-- Reads a clock out of `cs` with `after` behind it. -/
def clock? (cs after : List Char) : Option (Clock × Bool) := clockFrom after 3 0 true {} cs

/-- The length of a clock in microseconds. -/
def Clock.length (k : Clock) : Nat :=
  ((k.hour * 60 + k.minute) * 60 + k.second) * microsPerSecond + k.micro

/-- Whether a character begins an offset. -/
def isSign (c : Char) : Bool := c == '+' || c == '-'

/-- Reads a time of day with its offset, if it has one. An offset of less than a second is none. -/
def time? (cs : List Char) : Option (Clock × Int) := do
  let front := cs.takeWhile fun c ↦ !isSign c
  let back := cs.dropWhile fun c ↦ !isSign c
  let (clock, follows) ← clock? front back
  match back with
  | [] => if follows then none else some (clock, 0)
  | sign :: back =>
    let (shift, follows) ← clock? back []
    if follows then none
    else
      let size := if shift.length < microsPerSecond then 0 else shift.length
      some (clock, if sign == '-' then -(size : Int) else size)

/-- Reads a moment that takes the whole text. -/
def moment? (cs : List Char) : Option Moment := do
  if cs.length < 7 then none
  let n := dateLength cs
  let date ← date? (cs.take n)
  let (clock, offset) ← match cs.drop n with
    | [] => pure ({}, 0)
    | _ :: rest => time? rest
  let m : Moment :=
    { date, hour := clock.hour, minute := clock.minute, second := clock.second,
      micro := clock.micro, offset }
  if m.isValid then some m else none

/-- The text with `+00:00` for each `Z`. -/
def expandZulu (cs : List Char) : List Char :=
  cs.flatMap fun c ↦ if c = 'Z' then "+00:00".toList else [c]

/-- Reads a moment; blanks around it do not count. -/
def Moment.parse? (s : String) : Option Moment := moment? (expandZulu (trim s.toList))

/-! ### Writing -/

/-- A number with at least `n` digits. -/
def padded (n value : Nat) : String :=
  let ds := Nat.toDigits 10 value
  String.ofList (List.replicate (n - ds.length) '0' ++ ds)

/-- The fraction of a second, if there is one. -/
def microText (micro : Nat) : String := if micro = 0 then "" else "." ++ padded 6 micro

/-- An offset: hours and minutes, and what there is of seconds. -/
def offsetText (offset : Int) : String :=
  let size := offset.natAbs
  let seconds := size / microsPerSecond
  let rest := if seconds % 60 = 0 ∧ size % microsPerSecond = 0 then ""
    else ":" ++ padded 2 (seconds % 60) ++ microText (size % microsPerSecond)
  (if offset < 0 then "-" else "+") ++ padded 2 (seconds / 3600) ++ ":" ++
    padded 2 (seconds / 60 % 60) ++ rest

/-- The written date. -/
def Date.text (d : Date) : String :=
  padded 4 d.year ++ "-" ++ padded 2 d.month ++ "-" ++ padded 2 d.day

/-- The written time of day up to the second. -/
def Moment.clockText (m : Moment) : String :=
  padded 2 m.hour ++ ":" ++ padded 2 m.minute ++ ":" ++ padded 2 m.second

/-- The written moment. -/
def Moment.text (m : Moment) : String :=
  m.date.text ++ "T" ++ m.clockText ++ microText m.micro ++ offsetText m.offset

/-- The moment of an instant in universal time, if the calendar has it. -/
def Moment.ofInstant? (instant : Int) : Option Moment :=
  let n := instant / microsPerDay
  let t := (instant % microsPerDay).toNat
  if n < 1 ∨ 3652059 < n then none
  else
    let s := t / microsPerSecond
    some {
      date := Date.ofOrdinal n.toNat
      hour := s / 3600
      minute := s / 60 % 60
      second := s % 60
      micro := t % microsPerSecond }

/-- The moment in universal time with whole milliseconds, as reports are dated. -/
def Moment.stamp (m : Moment) : String :=
  match Moment.ofInstant? m.instant with
  | none => ""
  | some u =>
    u.date.text ++ "T" ++ u.clockText ++ "." ++ padded 3 (u.micro / 1000) ++ "Z"

end RepoSurvey.Time
