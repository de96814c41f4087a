/-!
# The calendar

Days of the Gregorian calendar, years 1 to 9999, counted from 1 January of year 1, which is day 1.
Weeks begin on Monday, and the first week of a year is the one that holds its first Thursday.
-/

namespace RepoSurvey.Time

/-- A day of the calendar. -/
structure Date where
  year : Nat
  month : Nat
  day : Nat
deriving DecidableEq, Repr

/-- Whether a year has a leap day. -/
def isLeap (year : Nat) : Bool := year % 4 == 0 && (year % 100 != 0 || year % 400 == 0)

/-- The number of days of a month. -/
def monthLength (year month : Nat) : Nat :=
  if month = 2 then (if isLeap year then 29 else 28)
  else if month ∈ [4, 6, 9, 11] then 30 else 31

/-- The number of days before a year. -/
def daysBeforeYear (year : Nat) : Nat :=
  let y := year - 1
  y * 365 + y / 4 - y / 100 + y / 400

/-- The number of days of a year before a month. -/
def daysBeforeMonth (year month : Nat) : Nat :=
  ((List.range (month - 1)).map fun m ↦ monthLength year (m + 1)).foldl (· + ·) 0

namespace Date

/-- Whether the calendar has such a day. -/
def isValid (d : Date) : Bool :=
  1 ≤ d.year && d.year ≤ 9999 && 1 ≤ d.month && d.month ≤ 12 && 1 ≤ d.day &&
    d.day ≤ monthLength d.year d.month

/-- The number of a day. -/
def ordinal (d : Date) : Nat := daysBeforeYear d.year + daysBeforeMonth d.year d.month + d.day

end Date

/-- The month and day of the `n`-th day of a year, from `month` on; `fuel` counts months. -/
def monthAndDay (year : Nat) : (fuel : Nat) → (month n : Nat) → Nat × Nat
  | 0, month, n => (month, n)
  | fuel + 1, month, n =>
    if n ≤ monthLength year month then (month, n)
    else monthAndDay year fuel (month + 1) (n - monthLength year month)

/-- The year that holds the `n`-th day, which lies at most one year before or after the estimate. -/
def yearOf (n : Nat) : Nat :=
  let guess := (n * 400 + 146096) / 146097
  if n ≤ daysBeforeYear guess then guess - 1
  else if daysBeforeYear (guess + 1) < n then guess + 1 else guess

/-- The `n`-th day. -/
def Date.ofOrdinal (n : Nat) : Date :=
  let year := yearOf n
  let (month, day) := monthAndDay year 12 1 (n - daysBeforeYear year)
  ⟨year, month, day⟩

/-- The day of the week of the `n`-th day, Monday being 0. -/
def weekday (n : Nat) : Nat := (n + 6) % 7

/-- The number of the Monday of a year's first week, plus seven so that it is positive. -/
def firstMondayPlusWeek (year : Nat) : Nat :=
  let first := daysBeforeYear year + 1
  let monday := first + 7 - weekday first
  if 3 < weekday first then monday + 7 else monday

/-- Whether a year has a week of that number. -/
def hasWeek (year week : Nat) : Bool :=
  let first := weekday (daysBeforeYear year + 1)
  1 ≤ week && (week ≤ 52 || (week == 53 && (first == 3 || (first == 2 && isLeap year))))

/-- The number of a day that is given by its week and its place in it, from 1 on. -/
def weekOrdinal? (year week day : Nat) : Option Nat :=
  if 1 ≤ year && year ≤ 9999 && hasWeek year week && 1 ≤ day && day ≤ 7 then
    some (firstMondayPlusWeek year + (week - 1) * 7 + (day - 1) - 7)
  else none

end RepoSurvey.Time
